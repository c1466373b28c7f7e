import PhicommTC1.CJsonText

/-! What cJSON prints, with or without layout, it reads back: every tree whose numbers are in the
symmetric range of `int` comes out of `cJSON_Parse` as it went into `cJSON_Print`. -/

namespace PhicommTC1.Proofs.PrintedText
open CText PhicommTC1

def digitBytes (n : Nat) : List UInt8 := (Nat.toDigits 10 n).map fun digit => UInt8.ofNat digit.toNat

theorem digit_byte : ∀ n < 10, isDigit (UInt8.ofNat (Nat.digitChar n).toNat) = true ∧
    (UInt8.ofNat (Nat.digitChar n).toNat).toNat = 48 + n := by
  decide

theorem digitBytes_small {n : Nat} (small : n < 10) : digitBytes n = [UInt8.ofNat (48 + n)] := by
  rw [digitBytes, Nat.toDigits_of_lt_base small, List.map_singleton, ← (digit_byte n small).2, UInt8.ofNat_toNat]

theorem digitBytes_step {n : Nat} (large : 10 ≤ n) :
    digitBytes n = digitBytes (n / 10) ++ [UInt8.ofNat (48 + n % 10)] := by
  have small : n % 10 < 10 := Nat.mod_lt n (by decide)
  rw [digitBytes, Nat.toDigits_of_base_le (by decide) large, List.map_append, List.map_singleton,
    ← (digit_byte _ small).2, UInt8.ofNat_toNat]
  rfl

theorem isDigit_ofNat {n : Nat} (small : n < 10) : isDigit (UInt8.ofNat (48 + n)) = true := by
  rw [← (digit_byte n small).2, UInt8.ofNat_toNat]
  exact (digit_byte n small).1

theorem digitBytes_isDigit (n : Nat) : ∀ byte ∈ digitBytes n, isDigit byte = true := by
  induction n using Nat.strongRecOn with
  | ind n ih =>
    by_cases small : n < 10
    · simpa [digitBytes_small small] using isDigit_ofNat small
    · rw [digitBytes_step (by omega)]
      intro byte member
      rcases List.mem_append.mp member with front | last
      · exact ih (n / 10) (by omega) byte front
      · rw [List.mem_singleton.mp last]
        exact isDigit_ofNat (Nat.mod_lt n (by decide))

theorem digitBytes_value (n : Nat) : (digitBytes n).foldl (fun n digit => n * 10 + (digit.toNat - 48)) 0 = n := by
  have digit {n : Nat} (small : n < 10) : (UInt8.ofNat (48 + n)).toNat - 48 = n := by
    rw [UInt8.toNat_ofNat_of_lt' (by simp only [UInt8.size]; omega)]
    omega
  induction n using Nat.strongRecOn with
  | ind n ih =>
    by_cases small : n < 10
    · simp only [digitBytes_small small, List.foldl_cons, List.foldl_nil, digit small]
      omega
    · have last : n % 10 < 10 := Nat.mod_lt n (by decide)
      rw [digitBytes_step (by omega), List.foldl_append, ih (n / 10) (by omega)]
      simp only [List.foldl_cons, List.foldl_nil, digit last]
      omega

/-- A positive number begins with a digit from 1 to 9. -/
theorem digitBytes_head {n : Nat} (positive : 0 < n) :
    ∃ first rest, digitBytes n = first :: rest ∧ 49 ≤ first ∧ first ≤ 57 := by
  induction n using Nat.strongRecOn with
  | ind n ih =>
    by_cases small : n < 10
    · refine ⟨_, [], digitBytes_small small, ?_⟩
      have byte : (UInt8.ofNat (48 + n)).toNat = 48 + n :=
        UInt8.toNat_ofNat_of_lt' (by simp only [UInt8.size]; omega)
      simp only [UInt8.le_iff_toNat_le, byte, UInt8.reduceToNat]
      omega
    · obtain ⟨first, rest, front, range⟩ := ih (n / 10) (by omega) (by omega)
      refine ⟨first, rest ++ [UInt8.ofNat (48 + n % 10)], ?_, range⟩
      rw [digitBytes_step (by omega), front]
      rfl

/-- No byte that could go on with a number comes first. -/
def Stops (rest : List UInt8) : Prop :=
  ∀ byte, rest.head? = some byte → isDigit byte = false ∧ byte ≠ 46 ∧ byte ≠ 101 ∧ byte ≠ 69

theorem stops_cons {byte : UInt8} {rest : List UInt8}
    (other : isDigit byte = false ∧ byte ≠ 46 ∧ byte ≠ 101 ∧ byte ≠ 69) : Stops (byte :: rest) := by
  intro head same
  cases same
  exact other

theorem span_digits {digits rest : List UInt8} (all : ∀ byte ∈ digits, isDigit byte = true) (stops : Stops rest) :
    (digits ++ rest).span isDigit = (digits, rest) := by
  rw [List.span_eq_takeWhile_dropWhile, List.takeWhile_append_of_pos all, List.dropWhile_append_of_pos all]
  cases rest with
  | nil => simp
  | cons byte rest => simp [(stops byte rfl).1]

theorem accept_stops {byte : UInt8} {rest : List UInt8} (stops : Stops rest)
    (going : byte = 46 ∨ byte = 101 ∨ byte = 69) : accept byte rest = none := by
  cases rest with
  | nil => rfl
  | cons head tail =>
    obtain ⟨-, point, small, big⟩ := stops head rfl
    refine if_neg ?_
    intro same
    subst same
    rcases going with here | here | here
    · exact point here
    · exact small here
    · exact big here

theorem integerPart_digits {rest : List UInt8} (stops : Stops rest) (n : Nat) :
    Numeral.integerPart (digitBytes n ++ rest) = (if n = 0 then [] else digitBytes n, rest) := by
  by_cases zero : n = 0
  · subst zero
    have lone : digitBytes 0 ++ rest = 48 :: rest := rfl
    have below : (rest.head?.any fun byte => 49 ≤ byte && byte ≤ 57) = false := by
      cases rest with
      | nil => rfl
      | cons byte tail =>
        obtain ⟨other, -⟩ := stops byte rfl
        simp only [isDigit, Bool.and_eq_false_iff, decide_eq_false_iff_not, UInt8.le_iff_toNat_le, UInt8.reduceToNat,
          List.head?_cons, Option.any_some] at other ⊢
        omega
    rw [lone, Numeral.integerPart, show accept 48 (48 :: rest) = some rest from rfl]
    simp only [Option.getD_some, below, if_true]
    rfl
  · obtain ⟨first, tail, split, low, high⟩ := digitBytes_head (Nat.pos_of_ne_zero zero)
    have kept : accept 48 (digitBytes n ++ rest) = none := by
      rw [split]
      refine if_neg ?_
      intro same
      subst same
      exact absurd low (by decide)
    have starts : ((digitBytes n ++ rest).head?.any fun byte => 49 ≤ byte && byte ≤ 57) = true := by
      rw [split]
      simp [low, high]
    simp only [Numeral.integerPart, kept, Option.getD_none, starts, if_true, if_neg zero,
      span_digits (digitBytes_isDigit n) stops]

theorem accept_digits {byte : UInt8} (other : isDigit byte = false) (n : Nat) (rest : List UInt8) :
    accept byte (digitBytes n ++ rest) = none := by
  cases split : digitBytes n with
  | nil => exact absurd (List.map_eq_nil_iff.mp split) Nat.toDigits_ne_nil
  | cons first tail =>
    refine if_neg ?_
    intro same
    have digit := digitBytes_isDigit n first (split ▸ List.mem_cons_self)
    rw [same, other] at digit
    cases digit

/-- The range in which the printed integer is the value again. -/
def Exact (value : Int32) : Prop := value.toInt.natAbs < 2 ^ 31

theorem decimal_eq (value : Int) :
    decimal value = if value < 0 then 45 :: digitBytes value.natAbs else digitBytes value.natAbs := rfl

theorem parse_decimal {value : Int32} {rest : List UInt8} (stops : Stops rest) (inRange : Exact value)
    (convert : Numeral → Int32) :
    ((Numeral.parse (decimal value.toInt ++ rest)).1.valueint convert,
      (Numeral.parse (decimal value.toInt ++ rest)).2) = (value, rest) := by
  have fraction : Numeral.fractionPart rest = ([], rest) := by
    rw [Numeral.fractionPart, accept_stops stops (.inl rfl)]
  have exponent : Numeral.exponentPart rest = (false, [], rest) := by
    rw [Numeral.exponentPart, accept_stops stops (.inr (.inl rfl)), accept_stops stops (.inr (.inr rfl))]
    rfl
  have sign : Numeral.signPart (decimal value.toInt ++ rest) =
      (decide (value.toInt < 0), digitBytes value.toInt.natAbs ++ rest) := by
    rw [decimal_eq]
    split
    next negative => simp [Numeral.signPart, accept, negative]
    next positive =>
      rw [Numeral.signPart, accept_digits (by decide)]
      simp [positive]
  have read : Numeral.parse (decimal value.toInt ++ rest) =
      (⟨decide (value.toInt < 0), if value.toInt.natAbs = 0 then [] else digitBytes value.toInt.natAbs, [], false, []⟩,
        rest) := by
    simp only [Numeral.parse, sign, integerPart_digits stops, fraction, exponent]
  rw [read]
  simp only [Prod.mk.injEq, and_true]
  generalize numeral_eq : Numeral.mk _ _ _ _ _ = numeral
  have magnitude : numeral.magnitude = value.toInt.natAbs := by
    rw [← numeral_eq, Numeral.magnitude]
    dsimp only
    split
    next zero => rw [zero]; rfl
    next => exact digitBytes_value _
  have plain : numeral.fraction = [] ∧ numeral.exponent = [] ∧ numeral.magnitude < 2 ^ 31 := by
    rw [magnitude]
    rw [← numeral_eq]
    exact ⟨rfl, rfl, inRange⟩
  have negative : numeral.negative = decide (value.toInt < 0) := by rw [← numeral_eq]
  rw [Numeral.valueint, if_pos plain, magnitude, negative]
  have back : (if decide (value.toInt < 0) = true then -(value.toInt.natAbs : Int) else value.toInt.natAbs) =
      value.toInt := by
    split
    next below => rw [decide_eq_true_eq] at below; omega
    next above => rw [decide_eq_true_eq] at above; omega
  rw [back, Int32.ofInt_toInt]

/-- Both loops of `parse_string` on a text: what the second writes and leaves, for which the first
has counted enough. -/
def Unescapes (text out left : List UInt8) : Prop :=
  (∃ len, stringLength text = .ok len ∧ out.length ≤ len) ∧
    ∃ shorter, unescape text = .ok (out, ⟨left, shorter⟩)

section Unescapes
variable {tail out left : List UInt8}

theorem unescapes_quote (rest : List UInt8) : Unescapes (34 :: rest) [] (34 :: rest) := by
  refine ⟨⟨0, ?_, Nat.le_refl _⟩, Nat.le_refl _, ?_⟩
  · cases rest <;> rfl
  · rw [unescape.eq_def]
    rfl

theorem stringLength_plain {byte : UInt8} {len : Nat} (plain : byte ≠ 34 ∧ byte ≠ 92)
    (counted : stringLength tail = .ok len) : stringLength (byte :: tail) = .ok (len + 1) := by
  cases tail with
  | nil =>
    cases counted
    simp [stringLength, plain]
  | cons head rest => simp [stringLength, plain, counted, Except.map]

theorem unescapes_plain {byte : UInt8} (plain : byte ≠ 34 ∧ byte ≠ 92) (rest : Unescapes tail out left) :
    Unescapes (byte :: tail) (byte :: out) left := by
  obtain ⟨⟨len, counted, enough⟩, shorter, unescaped⟩ := rest
  refine ⟨⟨len + 1, stringLength_plain plain counted, Nat.succ_le_succ enough⟩, Nat.le_succ_of_le shorter, ?_⟩
  rw [unescape.eq_def]
  dsimp only
  rw [if_neg plain.1, if_pos plain.2, unescaped]
  rfl

theorem unescapes_letter {token : UInt8} (other : token ≠ 117) (rest : Unescapes tail out left) :
    Unescapes (92 :: token :: tail) (escapedByte token :: out) left := by
  obtain ⟨⟨len, counted, enough⟩, shorter, unescaped⟩ := rest
  refine ⟨⟨len + 1, ?_, Nat.succ_le_succ enough⟩, Nat.le_succ_of_le (Nat.le_succ_of_le shorter), ?_⟩
  · simp [stringLength, counted, Except.map]
  · rw [unescape.eq_def]
    dsimp only
    rw [if_neg (by decide), if_neg (by decide), if_pos other, unescaped]
    rfl

theorem hex_read : ∀ n < 32, n ≠ 0 →
    [48, 48, CJson.hexDigit (UInt8.ofNat n / 16), CJson.hexDigit (UInt8.ofNat n % 16)].mapM hexValue =
      some [0, 0, n / 16, n % 16] ∧
    (CJson.hexDigit (UInt8.ofNat n / 16) ≠ 34 ∧ CJson.hexDigit (UInt8.ofNat n / 16) ≠ 92) ∧
    (CJson.hexDigit (UInt8.ofNat n % 16) ≠ 34 ∧ CJson.hexDigit (UInt8.ofNat n % 16) ≠ 92) := by
  decide

theorem transcode_control {byte : UInt8} (small : byte.toNat < 32) (positive : byte.toNat ≠ 0) (tail : List UInt8) :
    transcode (48 :: 48 :: CJson.hexDigit (byte / 16) :: CJson.hexDigit (byte % 16) :: tail) = ([byte], 4) := by
  obtain ⟨read, -⟩ := hex_read byte.toNat small positive
  rw [UInt8.ofNat_toNat] at read
  have uc : parseHex4 (48 :: 48 :: CJson.hexDigit (byte / 16) :: CJson.hexDigit (byte % 16) :: tail) =
      byte.toNat := by
    rw [parseHex4]
    simp only [List.take_succ_cons, List.take_zero, read]
    omega
  have low : ¬ (0xDC00 ≤ byte.toNat ∧ byte.toNat ≤ 0xDFFF ∨ byte.toNat = 0) := by omega
  have high : ¬ (0xD800 ≤ byte.toNat ∧ byte.toNat ≤ 0xDBFF) := by omega
  have ascii : byte.toNat < 0x80 := by omega
  simp only [transcode, uc, utf8, if_neg low, if_neg high, if_pos ascii, UInt8.ofNat_toNat]

theorem unescapes_unicode {byte : UInt8} (control : byte < 32) (ends : byte ≠ 0) (rest : Unescapes tail out left) :
    Unescapes (92 :: 117 :: 48 :: 48 :: CJson.hexDigit (byte / 16) :: CJson.hexDigit (byte % 16) :: tail)
      (byte :: out) left := by
  have small : byte.toNat < 32 := UInt8.lt_iff_toNat_lt.mp control
  have positive : byte.toNat ≠ 0 := fun same => ends (UInt8.toNat_inj.mp same)
  obtain ⟨-, high, low⟩ := hex_read byte.toNat small positive
  rw [UInt8.ofNat_toNat] at high low
  obtain ⟨⟨len, counted, enough⟩, shorter, unescaped⟩ := rest
  have code := transcode_control small positive tail
  have enough' : (byte :: out).length ≤ len + 5 := by
    rw [List.length_cons]
    omega
  have shorter' : left.length ≤
      (92 :: 117 :: 48 :: 48 :: CJson.hexDigit (byte / 16) :: CJson.hexDigit (byte % 16) :: tail).length := by
    simp only [List.length_cons]
    omega
  refine ⟨⟨len + 5, ?_, enough'⟩, shorter', ?_⟩
  · have zero {rest : List UInt8} {n : Nat} (next : stringLength rest = .ok n) :
        stringLength (48 :: rest) = .ok (n + 1) := stringLength_plain (by decide) next
    have four := zero (zero (stringLength_plain high (stringLength_plain low counted)))
    change (stringLength (48 :: _)).map (· + 1) = _
    rw [four]
    rfl
  · rw [unescape.eq_def]
    dsimp only
    rw [if_neg (by decide), if_neg (by decide), if_neg (by decide)]
    generalize transcode _ = read at code ⊢
    subst code
    dsimp only [List.length_cons]
    have behind :
        unescape (List.drop 4 (48 :: 48 :: CJson.hexDigit (byte / 16) :: CJson.hexDigit (byte % 16) :: tail)) =
          .ok (out, ⟨left, shorter⟩) := unescaped
    rw [if_pos (by omega), behind]
    rfl

theorem unescapes_printByte {byte : UInt8} (ends : byte ≠ 0) (rest : Unescapes tail out left) :
    Unescapes (CJson.printByte byte ++ tail) (byte :: out) left := by
  unfold CJson.printByte
  split
  next plain => exact unescapes_plain plain.2 rest
  next escaped =>
    split
    next same => subst same; exact unescapes_letter (by decide) rest
    split
    next same => subst same; exact unescapes_letter (by decide) rest
    split
    next same => subst same; exact unescapes_letter (by decide) rest
    split
    next same => subst same; exact unescapes_letter (by decide) rest
    split
    next same => subst same; exact unescapes_letter (by decide) rest
    split
    next same => subst same; exact unescapes_letter (by decide) rest
    split
    next same => subst same; exact unescapes_letter (by decide) rest
    next backslash quote _ _ _ _ _ =>
      have control : byte < 32 := by
        simp only [UInt8.lt_iff_toNat_lt, UInt8.reduceToNat] at escaped ⊢
        by_contra large
        exact escaped ⟨by omega, quote, backslash⟩
      exact unescapes_unicode control ends rest

end Unescapes

theorem unescapes_text {bytes : List UInt8} (noNul : 0 ∉ bytes) (rest : List UInt8) :
    Unescapes (bytes.flatMap CJson.printByte ++ 34 :: rest) bytes (34 :: rest) := by
  induction bytes with
  | nil => exact unescapes_quote rest
  | cons byte bytes ih =>
    simp only [List.mem_cons, not_or] at noNul
    rw [List.flatMap_cons, List.append_assoc]
    exact unescapes_printByte (Ne.symm noNul.1) (ih noNul.2)

/-- The parser takes one item off the front of the text. -/
def Reads {α : Type} {text : List UInt8} (result : Exec (Option (Parsed α text))) (item : α) (rest : List UInt8) :
    Prop :=
  ∃ parsed, result = .ok (some parsed) ∧ parsed.item = item ∧ parsed.rest = rest

theorem upToNul_bytes (text : CStr) : CStr.upToNul text.bytes = text := by
  apply CStr.ext
  apply List.takeWhile_eq_self_iff.mpr
  intro byte member
  simpa using fun zero : byte = 0 => text.noNul (zero ▸ member)

theorem parseString_printed (text : CStr) (rest : List UInt8) :
    Reads (parseString (CJson.printStringPtr text ++ rest)) text rest := by
  have shape : CJson.printStringPtr text ++ rest = 34 :: (text.bytes.flatMap CJson.printByte ++ 34 :: rest) := by
    simp [CJson.printStringPtr]
  obtain ⟨⟨len, counted, enough⟩, shorter, unescaped⟩ := unescapes_text text.noNul rest
  rw [shape]
  unfold parseString
  have opened : accept 34 (34 :: (text.bytes.flatMap CJson.printByte ++ 34 :: rest)) =
      some (text.bytes.flatMap CJson.printByte ++ 34 :: rest) := rfl
  split
  next closed => rw [opened] at closed; cases closed
  next body found =>
    rw [opened] at found
    cases found
    have bound : rest.length < (34 :: (text.bytes.flatMap CJson.printByte ++ 34 :: rest)).length := by
      simp only [List.length_cons, List.length_append]
      omega
    refine ⟨⟨.upToNul text.bytes, rest, bound⟩, ?_, upToNul_bytes text, rfl⟩
    rw [counted]
    change (unescape _ >>= _) = _
    rw [unescaped]
    exact if_neg (Nat.not_lt_of_le enough)

section Loops
variable {convert : Numeral → Int32} {text middle behind rest : List UInt8} {first : CJson}

theorem parseItems_last (value : Reads (parseValue convert text) first middle) (single : accept 44 (skip middle) = none)
    (closed : accept 93 (skip middle) = some rest) : Reads (parseItems convert text) [first] rest := by
  obtain ⟨parsed, ran, rfl, rfl⟩ := value
  rw [parseItems.eq_def, ran]
  dsimp only [bind, Except.bind]
  split
  next after comma => rw [single] at comma; cases comma
  next =>
    split
    next after bracket => rw [closed] at bracket; cases bracket; exact ⟨_, rfl, rfl, rfl⟩
    next bracket => rw [closed] at bracket; cases bracket

theorem parseItems_more {items : List CJson} (value : Reads (parseValue convert text) first middle)
    (comma : accept 44 (skip middle) = some behind) (others : Reads (parseItems convert (skip behind)) items rest) :
    Reads (parseItems convert text) (first :: items) rest := by
  obtain ⟨parsed, ran, rfl, rfl⟩ := value
  obtain ⟨list, listed, rfl, rfl⟩ := others
  rw [parseItems.eq_def, ran]
  dsimp only [bind, Except.bind]
  split
  next after found =>
    rw [comma] at found
    cases found
    rw [listed]
    exact ⟨_, rfl, rfl, rfl⟩
  next absent => rw [comma] at absent; cases absent

/-- The key and the value of a member, up to what is left behind them. -/
def ReadsMember (convert : Numeral → Int32) (text : List UInt8) (member : CStr × CJson) (rest : List UInt8) : Prop :=
  ∃ after behind, Reads (parseString text) member.1 after ∧ accept 58 (skip after) = some behind ∧
    Reads (parseValue convert (skip behind)) member.2 rest

theorem parseMembers_last {member : CStr × CJson} (reads : ReadsMember convert text member middle)
    (single : accept 44 (skip middle) = none) (closed : accept 125 (skip middle) = some rest) :
    Reads (parseMembers convert text) [member] rest := by
  obtain ⟨after, behind, ⟨key, named, keyItem, rfl⟩, colon, value, ran, valueItem, rfl⟩ := reads
  rw [parseMembers.eq_def, named]
  dsimp only [bind, Except.bind]
  split
  next absent => rw [colon] at absent; cases absent
  next found behind =>
    rw [colon] at behind
    cases behind
    rw [ran]
    dsimp only [bind, Except.bind]
    split
    next comma => rw [single] at comma; cases comma
    next =>
      split
      next bracket =>
        rw [closed] at bracket
        cases bracket
        exact ⟨_, rfl, by rw [keyItem, valueItem], rfl⟩
      next bracket => rw [closed] at bracket; cases bracket

theorem parseMembers_more {member : CStr × CJson} {members : Members} (reads : ReadsMember convert text member middle)
    (comma : accept 44 (skip middle) = some behind)
    (others : Reads (parseMembers convert (skip behind)) members rest) :
    Reads (parseMembers convert text) (member :: members) rest := by
  obtain ⟨after, front, ⟨key, named, keyItem, rfl⟩, colon, value, ran, valueItem, rfl⟩ := reads
  obtain ⟨list, listed, rfl, rfl⟩ := others
  rw [parseMembers.eq_def, named]
  dsimp only [bind, Except.bind]
  split
  next absent => rw [colon] at absent; cases absent
  next found front =>
    rw [colon] at front
    cases front
    rw [ran]
    dsimp only [bind, Except.bind]
    split
    next found =>
      rw [comma] at found
      cases found
      rw [listed]
      exact ⟨_, rfl, by rw [keyItem, valueItem], rfl⟩
    next absent => rw [comma] at absent; cases absent

end Loops

section Kinds
variable {convert : Numeral → Int32} {tail rest : List UInt8}

theorem startsWith_other {word head : UInt8} (words : List UInt8) (other : head ≠ word) :
    ¬ startsWith (word :: words) (head :: tail) = true := by
  simp [startsWith, Ne.symm other]

/-- A value that is none of the three words is told by its first byte. -/
theorem parseValue_no_word {head : UInt8} (other : head ≠ 110 ∧ head ≠ 102 ∧ head ≠ 116) (tail : List UInt8) :
    ¬ startsWith (CStr.ofString "null").bytes (head :: tail) = true ∧
      ¬ startsWith (CStr.ofString "false").bytes (head :: tail) = true ∧
      ¬ startsWith (CStr.ofString "true").bytes (head :: tail) = true :=
  ⟨startsWith_other _ other.1, startsWith_other _ other.2.1, startsWith_other _ other.2.2⟩

theorem parseValue_string {text : CStr} (reads : Reads (parseString (34 :: tail)) text rest) :
    Reads (parseValue convert (34 :: tail)) (.string text) rest := by
  obtain ⟨parsed, ran, rfl, rfl⟩ := reads
  have other : (34 : UInt8) ≠ 110 ∧ (34 : UInt8) ≠ 102 ∧ (34 : UInt8) ≠ 116 := by decide
  obtain ⟨noNull, noFalse, noTrue⟩ := parseValue_no_word other tail
  rw [parseValue.eq_def]
  dsimp only
  rw [if_neg noNull, if_neg noFalse, if_neg noTrue, if_pos rfl, ran]
  exact ⟨_, rfl, rfl, rfl⟩

theorem parseValue_number {head : UInt8} {value : Int32} (starts : head = 45 ∨ isDigit head = true)
    (read : ((Numeral.parse (head :: tail)).1.valueint convert, (Numeral.parse (head :: tail)).2) = (value, rest)) :
    Reads (parseValue convert (head :: tail)) (.number value) rest := by
  have other (byte : UInt8) (free : byte ≠ 45 ∧ isDigit byte = false) : head ≠ byte := by
    intro same
    subst same
    rcases starts with minus | digit
    · exact free.1 minus
    · rw [free.2] at digit; cases digit
  obtain ⟨noNull, noFalse, noTrue⟩ := parseValue_no_word
    ⟨other 110 (by decide), other 102 (by decide), other 116 (by decide)⟩ tail
  simp only [Prod.mk.injEq] at read
  rw [parseValue.eq_def]
  dsimp only
  rw [if_neg noNull, if_neg noFalse, if_neg noTrue, if_neg (other 34 (by decide)),
    dif_pos starts]
  exact ⟨_, rfl, by rw [read.1], read.2⟩

theorem parseValue_array {items : List CJson}
    (reads : accept 93 (skip tail) = some rest ∧ items = [] ∨
      accept 93 (skip tail) = none ∧ Reads (parseItems convert (skip tail)) items rest) :
    Reads (parseValue convert (91 :: tail)) (.array items) rest := by
  have other : (91 : UInt8) ≠ 110 ∧ (91 : UInt8) ≠ 102 ∧ (91 : UInt8) ≠ 116 := by decide
  obtain ⟨noNull, noFalse, noTrue⟩ := parseValue_no_word other tail
  rw [parseValue.eq_def]
  dsimp only
  rw [if_neg noNull, if_neg noFalse, if_neg noTrue, if_neg (by decide),
    dif_neg (by decide), if_pos rfl]
  rcases reads with ⟨closed, rfl⟩ | ⟨opened, list, listed, rfl, rfl⟩
  · split
    next after found => rw [closed] at found; cases found; exact ⟨_, rfl, rfl, rfl⟩
    next absent => rw [closed] at absent; cases absent
  · split
    next after found => rw [opened] at found; cases found
    next => rw [listed]; exact ⟨_, rfl, rfl, rfl⟩

theorem parseValue_object {members : Members}
    (reads : accept 125 (skip tail) = some rest ∧ members = [] ∨
      accept 125 (skip tail) = none ∧ Reads (parseMembers convert (skip tail)) members rest) :
    Reads (parseValue convert (123 :: tail)) (.object members) rest := by
  have other : (123 : UInt8) ≠ 110 ∧ (123 : UInt8) ≠ 102 ∧ (123 : UInt8) ≠ 116 := by decide
  obtain ⟨noNull, noFalse, noTrue⟩ := parseValue_no_word other tail
  rw [parseValue.eq_def]
  dsimp only
  rw [if_neg noNull, if_neg noFalse, if_neg noTrue, if_neg (by decide),
    dif_neg (by decide), if_neg (by decide), if_pos rfl]
  rcases reads with ⟨closed, rfl⟩ | ⟨opened, list, listed, rfl, rfl⟩
  · split
    next after found => rw [closed] at found; cases found; exact ⟨_, rfl, rfl, rfl⟩
    next absent => rw [closed] at absent; cases absent
  · split
    next after found => rw [opened] at found; cases found
    next => rw [listed]; exact ⟨_, rfl, rfl, rfl⟩

end Kinds

theorem skip_blank {spaces : List UInt8} (blank : ∀ byte ∈ spaces, byte ≤ 32) (rest : List UInt8) :
    skip (spaces ++ rest) = skip rest := by
  induction spaces with
  | nil => rfl
  | cons byte spaces ih =>
    simp only [List.forall_mem_cons] at blank
    rw [List.cons_append, skip, if_pos blank.1, ih blank.2]

theorem skip_solid {byte : UInt8} (solid : ¬ byte ≤ 32) (rest : List UInt8) : skip (byte :: rest) = byte :: rest :=
  if_neg solid

theorem skip_layout (fmt : Bool) {spaces : List UInt8} (blank : ∀ byte ∈ spaces, byte ≤ 32) (rest : List UInt8) :
    skip (CJson.layout fmt spaces ++ rest) = skip rest := by
  cases fmt with
  | false => rfl
  | true => exact skip_blank blank rest

theorem tabs_blank (depth : Nat) : ∀ byte ∈ CJson.tabs depth, byte ≤ 32 := by
  intro byte member
  rw [List.eq_of_mem_replicate member]
  decide

theorem decimal_head (value : Int) :
    ∃ head tail, decimal value = head :: tail ∧ (head = 45 ∨ isDigit head = true) := by
  rw [decimal_eq]
  split
  · exact ⟨45, _, rfl, .inl rfl⟩
  · cases split : digitBytes value.natAbs with
    | nil => exact absurd (List.map_eq_nil_iff.mp split) Nat.toDigits_ne_nil
    | cons head tail => exact ⟨head, tail, rfl, .inr (digitBytes_isDigit _ head (split ▸ List.mem_cons_self))⟩

/-- A printed value begins with a byte that is neither layout nor a closing bracket. -/
theorem printValue_head (fmt : Bool) (depth : Nat) (item : CJson) :
    ∃ head tail, CJson.printValue fmt depth item = head :: tail ∧ ¬ head ≤ 32 ∧ head ≠ 93 := by
  cases item with
  | number value =>
    obtain ⟨head, tail, split, starts⟩ := decimal_head value.toInt
    refine ⟨head, tail, split, ?_, ?_⟩
    · rcases starts with rfl | digit
      · decide
      · simp only [isDigit, Bool.and_eq_true, decide_eq_true_eq, UInt8.le_iff_toNat_le, UInt8.reduceToNat] at digit ⊢
        omega
    · intro same
      subst same
      exact absurd starts (by decide)
  | object members =>
    simp only [CJson.printValue]
    split <;> exact ⟨123, _, rfl, by decide, by decide⟩
  | string text => exact ⟨34, _, rfl, by decide, by decide⟩
  | array items => exact ⟨91, _, rfl, by decide, by decide⟩
  | jsonNull => exact ⟨110, _, rfl, by decide, by decide⟩
  | jsonFalse => exact ⟨102, _, rfl, by decide, by decide⟩
  | jsonTrue => exact ⟨116, _, rfl, by decide, by decide⟩

theorem skip_printValue (fmt : Bool) (depth : Nat) (item : CJson) (rest : List UInt8) :
    skip (CJson.printValue fmt depth item ++ rest) = CJson.printValue fmt depth item ++ rest := by
  obtain ⟨head, tail, split, solid, -⟩ := printValue_head fmt depth item
  rw [split]
  exact skip_solid solid _

theorem skip_printMember (fmt : Bool) (depth : Nat) (member : CStr × CJson) (rest : List UInt8) :
    skip (CJson.printMember fmt depth member ++ rest) =
      CJson.printStringPtr member.1 ++
        58 :: (CJson.layout fmt [9] ++ (CJson.printValue fmt depth member.2 ++ rest)) := by
  obtain ⟨key, item⟩ := member
  have passed : CJson.printMember fmt depth (key, item) ++ rest = CJson.layout fmt (CJson.tabs depth) ++
      (CJson.printStringPtr key ++ 58 :: (CJson.layout fmt [9] ++ (CJson.printValue fmt depth item ++ rest))) := by
    simp only [CJson.printMember, List.append_assoc, List.cons_append]
  rw [passed, skip_layout fmt (tabs_blank depth)]
  exact skip_solid (by decide : ¬ (34 : UInt8) ≤ 32) _

mutual

def Readable : CJson → Prop
  | .number value => Exact value
  | .array items => ReadableItems items
  | .object members => ReadableMembers members
  | _ => True
termination_by structural item => item

def ReadableItems : List CJson → Prop
  | [] => True
  | item :: items => Readable item ∧ ReadableItems items
termination_by structural items => items

def ReadableMember : CStr × CJson → Prop
  | (_, item) => Readable item
termination_by structural member => member

def ReadableMembers : List (CStr × CJson) → Prop
  | [] => True
  | member :: members => ReadableMember member ∧ ReadableMembers members
termination_by structural members => members

end

theorem readable_entries {ι : Type} (key : ι → CStr) (entry : ι → CJson) (indices : List ι)
    (readable : ∀ index, Readable (entry index)) :
    ReadableMembers (indices.map fun index => (key index, entry index)) := by
  induction indices with
  | nil => trivial
  | cons index indices ih => exact ⟨readable index, ih⟩

theorem stops_layout (fmt : Bool) {spaces rest : List UInt8} (blank : ∀ byte ∈ spaces, byte ≤ 32) (stops : Stops rest) :
    Stops (CJson.layout fmt spaces ++ rest) := by
  cases fmt with
  | false => exact stops
  | true =>
    cases spaces with
    | nil => exact stops
    | cons byte spaces =>
      apply stops_cons
      have low := UInt8.le_iff_toNat_le.mp (blank byte List.mem_cons_self)
      simp only [UInt8.reduceToNat] at low
      refine ⟨?_, ?_, ?_, ?_⟩
      · simp only [isDigit, Bool.and_eq_false_iff, decide_eq_false_iff_not, UInt8.le_iff_toNat_le, UInt8.reduceToNat]
        omega
      all_goals
        intro same
        rw [same] at low
        exact absurd low (by decide)

theorem printItems_cons (fmt : Bool) (depth : Nat) (item : CJson) (items : List CJson) (rest : List UInt8) :
    CJson.printItems fmt depth (item :: items) ++ rest = CJson.printValue fmt depth item ++
      ((if items.isEmpty then [] else 44 :: CJson.layout fmt [32]) ++ (CJson.printItems fmt depth items ++ rest)) := by
  simp only [CJson.printItems, List.append_assoc]

theorem printMembers_cons (fmt : Bool) (depth : Nat) (member : CStr × CJson) (members : Members) (rest : List UInt8) :
    CJson.printMembers fmt depth (member :: members) ++ rest = CJson.printMember fmt depth member ++
      ((if members.isEmpty then [] else [44]) ++
        (CJson.layout fmt [10] ++ (CJson.printMembers fmt depth members ++ rest))) := by
  simp only [CJson.printMembers, List.append_assoc]

theorem skip_printItems (fmt : Bool) (depth : Nat) {items : List CJson} (nonempty : items ≠ []) (rest : List UInt8) :
    skip (CJson.printItems fmt depth items ++ rest) = CJson.printItems fmt depth items ++ rest ∧
      accept 93 (CJson.printItems fmt depth items ++ rest) = none := by
  obtain ⟨item, others, rfl⟩ := List.exists_cons_of_ne_nil nonempty
  rw [printItems_cons]
  refine ⟨skip_printValue fmt depth item _, ?_⟩
  obtain ⟨head, tail, split, -, other⟩ := printValue_head fmt depth item
  rw [split]
  exact if_neg other

theorem accept_printMembers (fmt : Bool) (depth : Nat) {members : Members} (nonempty : members ≠ [])
    (rest : List UInt8) : accept 125 (skip (CJson.printMembers fmt depth members ++ rest)) = none := by
  obtain ⟨member, others, rfl⟩ := List.exists_cons_of_ne_nil nonempty
  rw [printMembers_cons, skip_printMember]
  rfl

mutual

theorem parseValue_printed (convert : Numeral → Int32) (fmt : Bool) (depth : Nat) :
    ∀ (item : CJson) (rest : List UInt8), Readable item → Stops rest →
      Reads (parseValue convert (CJson.printValue fmt depth item ++ rest)) item rest
  | .jsonNull, rest, _, _ => ⟨_, parseValue.eq_def convert _, rfl, rfl⟩
  | .jsonFalse, rest, _, _ => ⟨_, parseValue.eq_def convert _, rfl, rfl⟩
  | .jsonTrue, rest, _, _ => ⟨_, parseValue.eq_def convert _, rfl, rfl⟩
  | .number value, rest, readable, stops => by
    obtain ⟨head, tail, split, starts⟩ := decimal_head value.toInt
    have read := parse_decimal stops readable convert
    simp only [CJson.printValue]
    rw [split] at read ⊢
    exact parseValue_number starts read
  | .string text, rest, _, _ => parseValue_string (parseString_printed text rest)
  | .array items, rest, readable, stops => by
    have text : CJson.printValue fmt depth (.array items) ++ rest =
        91 :: (CJson.printItems fmt (depth + 1) items ++ 93 :: rest) := by
      simp only [CJson.printValue, List.cons_append, List.append_assoc, List.nil_append]
    rw [text]
    apply parseValue_array
    by_cases empty : items = []
    · subst empty
      exact .inl ⟨rfl, rfl⟩
    · obtain ⟨same, opened⟩ := skip_printItems fmt (depth + 1) empty (93 :: rest)
      rw [same]
      exact .inr ⟨opened, parseItems_printed convert fmt (depth + 1) items rest empty readable⟩
  | .object members, rest, readable, stops => by
    by_cases empty : members = []
    · subst empty
      have text : CJson.printValue fmt depth (.object []) ++ rest =
          123 :: (CJson.layout fmt (10 :: CJson.tabs (depth - 1)) ++ 125 :: rest) := by
        simp [CJson.printValue]
      have blank : ∀ byte ∈ 10 :: CJson.tabs (depth - 1), byte ≤ 32 :=
        List.forall_mem_cons.mpr ⟨by decide, tabs_blank _⟩
      rw [text]
      apply parseValue_object
      rw [skip_layout fmt blank]
      exact .inl ⟨rfl, rfl⟩
    · have text : CJson.printValue fmt depth (.object members) ++ rest =
          123 :: (CJson.layout fmt [10] ++ (CJson.printMembers fmt (depth + 1) members ++
            (CJson.layout fmt (CJson.tabs depth) ++ 125 :: rest))) := by
        simp [CJson.printValue, empty]
      rw [text]
      apply parseValue_object
      rw [skip_layout fmt (by simp)]
      refine .inr ⟨accept_printMembers fmt (depth + 1) empty _, ?_⟩
      apply parseMembers_printed convert fmt (depth + 1) members _ rest empty readable
      · exact skip_layout fmt (tabs_blank depth) _
      · exact stops_layout fmt (tabs_blank depth) (stops_cons (by decide))
termination_by structural item => item

theorem parseItems_printed (convert : Numeral → Int32) (fmt : Bool) (depth : Nat) :
    ∀ (items : List CJson) (rest : List UInt8), items ≠ [] → ReadableItems items →
      Reads (parseItems convert (CJson.printItems fmt depth items ++ 93 :: rest)) items rest
  | [], _, nonempty, _ => absurd rfl nonempty
  | [item], rest, _, readable => by
    rw [printItems_cons]
    have value := parseValue_printed convert fmt depth item (93 :: rest) readable.1 (stops_cons (by decide))
    exact parseItems_last value rfl rfl
  | item :: next :: items, rest, _, readable => by
    rw [printItems_cons]
    have value := parseValue_printed convert fmt depth item
      (44 :: (CJson.layout fmt [32] ++ (CJson.printItems fmt depth (next :: items) ++ 93 :: rest))) readable.1
      (stops_cons (by decide))
    apply parseItems_more value rfl
    rw [skip_layout fmt (by simp), (skip_printItems fmt depth (List.cons_ne_nil next items) _).1]
    exact parseItems_printed convert fmt depth (next :: items) rest (List.cons_ne_nil next items) readable.2
termination_by structural items => items

theorem parseMembers_printed (convert : Numeral → Int32) (fmt : Bool) (depth : Nat) :
    ∀ (members : Members) (close rest : List UInt8), members ≠ [] → ReadableMembers members →
      skip close = 125 :: rest → Stops close →
      Reads (parseMembers convert (skip (CJson.printMembers fmt depth members ++ close))) members rest
  | [], _, _, nonempty, _, _, _ => absurd rfl nonempty
  | [member], close, rest, _, readable, closed, stops => by
    rw [printMembers_cons]
    have behind : skip (CJson.layout fmt [10] ++ close) = 125 :: rest := by
      rw [skip_layout fmt (by simp), closed]
    have first := readsMember_printed convert fmt depth member (CJson.layout fmt [10] ++ close) readable.1
      (stops_layout fmt (by simp) stops)
    apply parseMembers_last first
    · rw [behind]; rfl
    · rw [behind]; rfl
  | member :: next :: members, close, rest, _, readable, closed, stops => by
    rw [printMembers_cons]
    have first := readsMember_printed convert fmt depth member
      (44 :: (CJson.layout fmt [10] ++ (CJson.printMembers fmt depth (next :: members) ++ close))) readable.1
      (stops_cons (by decide))
    apply parseMembers_more first rfl
    rw [skip_layout fmt (by simp)]
    exact parseMembers_printed convert fmt depth (next :: members) close rest (List.cons_ne_nil next members)
      readable.2 closed stops
termination_by structural members => members

theorem readsMember_printed (convert : Numeral → Int32) (fmt : Bool) (depth : Nat) :
    ∀ (member : CStr × CJson) (rest : List UInt8), ReadableMember member → Stops rest →
      ReadsMember convert (skip (CJson.printMember fmt depth member ++ rest)) member rest
  | (key, item), rest, readable, stops => by
    rw [skip_printMember]
    refine ⟨_, _, parseString_printed key _, rfl, ?_⟩
    rw [skip_layout fmt (by simp), skip_printValue]
    exact parseValue_printed convert fmt depth item rest readable stops
termination_by structural member => member

end

/-- What cJSON prints, in either form, it parses as the same tree. -/
theorem parse_print (convert : Numeral → Int32) (fmt : Bool) {item : CJson} (readable : Readable item) {text : CStr}
    (printed : text.bytes = CJson.printValue fmt 0 item) : cJSONParse convert text = .ok (some item) := by
  have whole := parseValue_printed convert fmt 0 item [] readable nofun
  rw [← skip_printValue, List.append_nil, ← printed] at whole
  obtain ⟨parsed, ran, rfl, -⟩ := whole
  rw [cJSONParse, ran]
  rfl

end PhicommTC1.Proofs.PrintedText
