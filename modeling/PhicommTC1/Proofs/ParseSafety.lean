import PhicommTC1.Proofs.CJsonParsing
import PhicommTC1.Proofs.PrintedText

/-! Which texts `cJSON_Parse` reads without leaving them. Only an escape can lead past the end of a text: the byte
behind a backslash is passed unseen, and so are the digits behind `\u`. -/

namespace PhicommTC1.Proofs.ParseSafety
open CText PhicommTC1 PrintedText Separation CJsonOwnership CJsonEdits
variable {text tail out left : List UInt8}

/-- What follows a backslash: a byte, and behind a `u` four hexadecimal digits. -/
def Complete : List UInt8 → Prop
  | [] => False
  | token :: rest => token = 117 → 4 ≤ rest.length ∧ ∀ digit ∈ rest.take 4, (hexValue digit).isSome = true

instance (rest : List UInt8) : Decidable (Complete rest) :=
  match rest with
  | [] => isFalse id
  | token :: rest =>
    decidable_of_iff ((token != 117 || (decide (4 ≤ rest.length) && (rest.take 4).all fun digit =>
      (hexValue digit).isSome)) = true) (by
        simp only [Complete, Bool.or_eq_true, bne_iff_ne, Bool.and_eq_true, decide_eq_true_eq, List.all_eq_true]
        exact imp_iff_not_or.symm)

/-- Every backslash starts a complete escape. -/
def Escaped (text : List UInt8) : Prop := ∀ rest, 92 :: rest <:+ text → Complete rest

theorem escaped_iff : Escaped text ↔ ∀ tail ∈ text.tails, tail.head? = some 92 → Complete tail.tail := by
  constructor
  · intro escaped tail member starts
    have behind := (List.mem_tails tail text).mp member
    obtain ⟨rest, rfl⟩ := List.head?_eq_some_iff.mp starts
    exact escaped rest behind
  · intro all rest behind
    exact all (92 :: rest) ((List.mem_tails _ _).mpr behind) rfl

instance (text : List UInt8) : Decidable (Escaped text) := decidable_of_iff _ escaped_iff.symm

theorem Escaped.suffix (escaped : Escaped text) (behind : tail <:+ text) : Escaped tail :=
  fun rest found => escaped rest (found.trans behind)

theorem Escaped.rest {byte : UInt8} (escaped : Escaped (byte :: tail)) : Escaped tail :=
  escaped.suffix (List.suffix_cons byte tail)

theorem digit_plain {digit : UInt8} (hex : (hexValue digit).isSome = true) : digit ≠ 34 ∧ digit ≠ 92 := by
  constructor
  · rintro rfl
    exact absurd hex (by decide)
  · rintro rfl
    exact absurd hex (by decide)

theorem utf8_length (uc : Nat) : (utf8 uc).length ≤ 4 := by
  unfold utf8
  dsimp only
  split_ifs <;> simp

theorem stringLength_digits {a b c d : UInt8} {len : Nat}
    (digits : ∀ digit ∈ [a, b, c, d], (hexValue digit).isSome = true) (counted : stringLength tail = .ok len) :
    stringLength (a :: b :: c :: d :: tail) = .ok (len + 4) := by
  have plain (digit : UInt8) (listed : digit ∈ [a, b, c, d]) := digit_plain (digits digit listed)
  exact stringLength_plain (plain a (by simp)) (stringLength_plain (plain b (by simp))
    (stringLength_plain (plain c (by simp)) (stringLength_plain (plain d (by simp)) counted)))

theorem stringLength_escape {token : UInt8} {len : Nat} (counted : stringLength tail = .ok len) :
    stringLength (92 :: token :: tail) = .ok (len + 1) := by
  simp [stringLength, counted, Except.map]

/-- An escape `\u` whose characters are all there and count for at least what it stands for. -/
theorem unescapes_passed {behind written : List UInt8} {used len : Nat} (code : transcode behind = (written, used))
    (inside : used ≤ behind.length) (counted : stringLength behind = .ok len)
    (rest : Unescapes (behind.drop used) out left) (enough : (written ++ out).length ≤ len + 1) :
    Unescapes (92 :: 117 :: behind) (written ++ out) left := by
  obtain ⟨-, shorter, unescaped⟩ := rest
  refine ⟨⟨len + 1, stringLength_escape counted, enough⟩, ?_⟩
  have shorter' : left.length ≤ (92 :: 117 :: behind).length := by
    rw [List.length_drop] at shorter
    simp only [List.length_cons]
    omega
  refine ⟨shorter', ?_⟩
  rw [unescape.eq_def]
  dsimp only
  rw [if_neg (by decide), if_neg (by decide), if_neg (by decide)]
  generalize transcode _ = read at code ⊢
  subst code
  dsimp only
  rw [if_pos inside, unescaped]
  rfl

theorem accept_cons {byte : UInt8} {rest : List UInt8} (found : accept byte text = some rest) : text = byte :: rest := by
  cases text with
  | nil => cases found
  | cons head rest =>
    simp only [accept] at found
    split at found
    next same => cases found; rw [same]
    next => cases found

/-- What `\u` stands for and how far it reaches. -/
theorem transcode_cases (behind : List UInt8) : (∃ written, transcode behind = (written, 4) ∧ written.length ≤ 4) ∨
    ∃ written second, transcode behind = (written, 10) ∧ written.length ≤ 4 ∧
      behind.drop 4 = 92 :: 117 :: second := by
  unfold transcode
  dsimp only
  split
  · exact .inl ⟨[], rfl, by simp⟩
  · split
    · split
      next => exact .inl ⟨[], rfl, by simp⟩
      next second found =>
        obtain ⟨after, first, found⟩ := Option.bind_eq_some_iff.mp found
        have split : behind.drop 4 = 92 :: 117 :: second := by
          rw [accept_cons first, accept_cons found]
        split
        · exact .inr ⟨[], second, rfl, by simp, split⟩
        · exact .inr ⟨_, second, rfl, utf8_length _, split⟩
    · exact .inl ⟨_, rfl, utf8_length _⟩

theorem Complete.digits (complete : Complete (117 :: tail)) : ∃ a b c d rest, tail = a :: b :: c :: d :: rest ∧
    ∀ digit ∈ [a, b, c, d], (hexValue digit).isSome = true := by
  obtain ⟨long, hex⟩ := complete rfl
  match tail, long, hex with
  | a :: b :: c :: d :: rest, _, hex => exact ⟨a, b, c, d, rest, rfl, hex⟩

/-- Both loops of `parse_string` stay inside a text whose escapes are complete, and agree on it. -/
theorem escaped_unescapes {text : List UInt8} (escaped : Escaped text) :
    ∃ out left, Unescapes text out left ∧ left <:+ text := by
  induction length : text.length using Nat.strongRecOn generalizing text with
  | ind n ih =>
    have shorter (rest : List UInt8) (behind : rest <:+ text) (less : rest.length < text.length) :
        ∃ out left, Unescapes rest out left ∧ left <:+ text := by
      obtain ⟨out, left, read, suffix⟩ := ih rest.length (by omega) (escaped.suffix behind) rfl
      exact ⟨out, left, read, suffix.trans behind⟩
    match text with
    | [] => exact ⟨[], [], ⟨⟨0, rfl, Nat.le_refl _⟩, Nat.le_refl _, by rw [unescape.eq_def]⟩, List.suffix_refl _⟩
    | byte :: rest =>
      by_cases quote : byte = 34
      · subst quote
        exact ⟨[], 34 :: rest, unescapes_quote rest, List.suffix_refl _⟩
      by_cases plain : byte ≠ 92
      · obtain ⟨out, left, read, suffix⟩ := shorter rest (List.suffix_cons _ _) (by simp)
        exact ⟨byte :: out, left, unescapes_plain ⟨quote, plain⟩ read, suffix⟩
      obtain rfl : byte = 92 := by simpa using plain
      have complete : Complete rest := escaped rest (List.suffix_refl _)
      match rest with
      | [] => exact complete.elim
      | token :: behind =>
        have inner : behind <:+ 92 :: token :: behind := (List.suffix_cons _ _).trans (List.suffix_cons _ _)
        by_cases letter : token ≠ 117
        · obtain ⟨out, left, read, suffix⟩ := shorter behind inner (by simp only [List.length_cons]; omega)
          exact ⟨_, left, unescapes_letter letter read, suffix⟩
        obtain rfl : token = 117 := by simpa using letter
        obtain ⟨a, b, c, d, after, rfl, hex⟩ := complete.digits
        have four : after <:+ 92 :: 117 :: a :: b :: c :: d :: after := by
          refine List.IsSuffix.trans ?_ inner
          exact List.suffix_append [a, b, c, d] after
        rcases transcode_cases (a :: b :: c :: d :: after) with ⟨written, code, small⟩ | ⟨written, second, code, small, pair⟩
        · obtain ⟨out, left, read, suffix⟩ := shorter after four (by simp only [List.length_cons]; omega)
          obtain ⟨len, counted, enough⟩ := read.1
          have whole := stringLength_digits hex counted
          refine ⟨written ++ out, left, unescapes_passed code (by simp) whole read ?_, suffix⟩
          rw [List.length_append]
          omega
        · -- The second half of a surrogate pair is an escape of its own, and complete like any other.
          have pair : after = 92 :: 117 :: second := pair
          subst pair
          have again : Complete (117 :: second) := escaped _ four
          obtain ⟨e, f, g, h, last, rfl, hex'⟩ := again.digits
          have ten : last <:+ 92 :: 117 :: a :: b :: c :: d :: 92 :: 117 :: e :: f :: g :: h :: last :=
            (List.suffix_append [92, 117, e, f, g, h] last).trans four
          obtain ⟨out, left, read, suffix⟩ := shorter last ten (by simp only [List.length_cons]; omega)
          obtain ⟨len, counted, enough⟩ := read.1
          have behind : stringLength (92 :: 117 :: e :: f :: g :: h :: last) = .ok (len + 4 + 1) :=
            stringLength_escape (stringLength_digits hex' counted)
          have whole := stringLength_digits hex behind
          refine ⟨written ++ out, left, unescapes_passed code (by simp) whole read ?_, suffix⟩
          rw [List.length_append]
          omega

theorem accept_suffix {byte : UInt8} {rest : List UInt8} (found : accept byte text = some rest) : rest <:+ text := by
  rw [accept_cons found]
  exact List.suffix_cons byte rest

theorem accept_getD_suffix (byte : UInt8) (text : List UInt8) : (accept byte text).getD text <:+ text := by
  cases found : accept byte text with
  | none => exact List.suffix_refl text
  | some rest => exact accept_suffix found

theorem skip_suffix (text : List UInt8) : skip text <:+ text := by
  induction text with
  | nil => exact List.suffix_refl []
  | cons byte rest ih =>
    simp only [skip]
    split
    · exact ih.trans (List.suffix_cons byte rest)
    · exact List.suffix_refl _

theorem span_suffix (text : List UInt8) : (text.span isDigit).2 <:+ text := by
  rw [List.span_eq_takeWhile_dropWhile]
  exact List.dropWhile_suffix isDigit

theorem signPart_suffix (text : List UInt8) : (Numeral.signPart text).2 <:+ text := by
  unfold Numeral.signPart
  split
  next rest found => exact accept_suffix found
  next => exact List.suffix_refl text

theorem integerPart_suffix (text : List UInt8) : (Numeral.integerPart text).2 <:+ text := by
  have zero := accept_getD_suffix 48 text
  unfold Numeral.integerPart
  dsimp only
  split
  · exact (span_suffix _).trans zero
  · exact zero

theorem fractionPart_suffix (text : List UInt8) : (Numeral.fractionPart text).2 <:+ text := by
  unfold Numeral.fractionPart
  split
  next rest found =>
    split
    · exact (span_suffix rest).trans (accept_suffix found)
    · exact List.suffix_refl text
  next => exact List.suffix_refl text

theorem exponentPart_suffix (text : List UInt8) : (Numeral.exponentPart text).2.2 <:+ text := by
  unfold Numeral.exponentPart
  split
  next rest found =>
    have behind : rest <:+ text := by
      rcases Option.or_eq_some_iff.mp found with small | ⟨-, big⟩
      · exact accept_suffix small
      · exact accept_suffix big
    split
    next digits plus => exact (span_suffix digits).trans ((accept_suffix plus).trans behind)
    next => exact (span_suffix _).trans ((signPart_suffix rest).trans behind)
  next => exact List.suffix_refl text

theorem numeral_suffix (text : List UInt8) : (Numeral.parse text).2 <:+ text :=
  (exponentPart_suffix _).trans ((fractionPart_suffix _).trans ((integerPart_suffix _).trans (signPart_suffix text)))

/-- The computation has a result, and what it has read ends inside the text. -/
def Safe {α : Type} (text : List UInt8) (computation : Exec (Option (Parsed α text))) : Prop :=
  ∃ result, computation = .ok result ∧ ∀ parsed, result = some parsed → parsed.rest <:+ text

namespace Safe
variable {α : Type}

theorem nothing : Safe (α := α) text (.ok none) := ⟨none, rfl, nofun⟩

theorem found {parsed : Parsed α text} (behind : parsed.rest <:+ text) : Safe text (.ok (some parsed)) := by
  refine ⟨some parsed, rfl, ?_⟩
  rintro _ ⟨⟩
  exact behind

end Safe

theorem parseString_safe (escaped : Escaped text) : Safe text (parseString text) := by
  unfold parseString
  split
  next => exact .nothing
  next body opened =>
    have inside := accept_suffix opened
    obtain ⟨out, left, ⟨⟨len, counted, enough⟩, shorter, unescaped⟩, behind⟩ :=
      escaped_unescapes (escaped.suffix inside)
    rw [counted, unescaped]
    dsimp only [bind, Except.bind]
    rw [if_neg (by omega)]
    exact .found ((accept_getD_suffix 34 left).trans (behind.trans inside))

variable (convert : Numeral → Int32)

/-- Each function of the parser stays inside texts of less than a given length. -/
structure SafeBelow (bound : Nat) : Prop where
  value : ∀ text, text.length < bound → Escaped text → Safe text (parseValue convert text)
  items : ∀ text, text.length < bound → Escaped text → Safe text (parseItems convert text)
  members : ∀ text, text.length < bound → Escaped text → Safe text (parseMembers convert text)

variable {convert}

theorem value_safe (below : SafeBelow convert text.length) (escaped : Escaped text) :
    Safe text (parseValue convert text) := by
  cases text with
  | nil =>
    rw [parseValue]
    exact .nothing
  | cons head tail =>
    have shorter := skip_length tail
    have inside : skip tail <:+ head :: tail := (skip_suffix tail).trans (List.suffix_cons head tail)
    have dropped (n : Nat) : tail.drop n <:+ head :: tail := (List.drop_suffix n tail).trans (List.suffix_cons head tail)
    have within : (skip tail).length < (head :: tail).length := by
      rw [List.length_cons]
      omega
    rw [parseValue]
    split
    · exact .found (dropped 3)
    split
    · exact .found (dropped 4)
    split
    · exact .found (dropped 3)
    split
    · obtain ⟨result, read, behind⟩ := parseString_safe escaped
      rw [read]
      cases result with
      | none => exact .nothing
      | some string => exact .found (behind string rfl)
    split
    · exact .found (numeral_suffix _)
    split
    · split
      next rest closed => exact .found ((accept_suffix closed).trans inside)
      next =>
        obtain ⟨result, read, behind⟩ := below.items (skip tail) within (escaped.suffix inside)
        rw [read]
        cases result with
        | none => exact .nothing
        | some items => exact .found ((behind items rfl).trans inside)
    split
    · split
      next rest closed => exact .found ((accept_suffix closed).trans inside)
      next =>
        obtain ⟨result, read, behind⟩ := below.members (skip tail) within (escaped.suffix inside)
        rw [read]
        cases result with
        | none => exact .nothing
        | some members => exact .found ((behind members rfl).trans inside)
    · exact .nothing

theorem accept_skip_suffix {byte : UInt8} {rest : List UInt8} (found : accept byte (skip text) = some rest) :
    rest <:+ text := (accept_suffix found).trans (skip_suffix text)

theorem items_safe (below : SafeBelow convert text.length) (value : Safe text (parseValue convert text))
    (escaped : Escaped text) : Safe text (parseItems convert text) := by
  obtain ⟨first, read, behind⟩ := value
  rw [parseItems, read]
  cases first with
  | none => exact .nothing
  | some first =>
    have inside := behind first rfl
    dsimp only [bind, Except.bind]
    split
    next rest comma =>
      have further : skip rest <:+ text := (skip_suffix rest).trans ((accept_skip_suffix comma).trans inside)
      have shorter := Nat.lt_trans (skip_accept_skip_length comma) first.shorter
      obtain ⟨more, ran, after⟩ := below.items (skip rest) shorter (escaped.suffix further)
      rw [ran]
      cases more with
      | none => exact .nothing
      | some items => exact .found ((after items rfl).trans further)
    next =>
      split
      next rest closed => exact .found ((accept_skip_suffix closed).trans inside)
      next => exact .nothing

theorem members_safe (below : SafeBelow convert text.length) (escaped : Escaped text) :
    Safe text (parseMembers convert text) := by
  obtain ⟨key, named, behind⟩ := parseString_safe escaped
  rw [parseMembers, named]
  cases key with
  | none => exact .nothing
  | some key =>
    have inside := behind key rfl
    dsimp only [bind, Except.bind]
    split
    next => exact .nothing
    next value colon =>
      have valued : skip value <:+ text := (skip_suffix value).trans ((accept_skip_suffix colon).trans inside)
      have less := Nat.lt_trans (skip_accept_skip_length colon) key.shorter
      obtain ⟨first, read, behind⟩ := below.value (skip value) less (escaped.suffix valued)
      rw [read]
      cases first with
      | none => exact .nothing
      | some first =>
        have passed := (behind first rfl).trans valued
        dsimp only
        split
        next rest comma =>
          have further : skip rest <:+ text := (skip_suffix rest).trans ((accept_skip_suffix comma).trans passed)
          have shorter := Nat.lt_trans (skip_accept_skip_length comma) (Nat.lt_trans first.shorter less)
          obtain ⟨more, ran, after⟩ := below.members (skip rest) shorter (escaped.suffix further)
          rw [ran]
          cases more with
          | none => exact .nothing
          | some members => exact .found ((after members rfl).trans further)
        next =>
          split
          next rest closed => exact .found ((accept_skip_suffix closed).trans passed)
          next => exact .nothing

theorem safe_below (bound : Nat) : SafeBelow convert bound := by
  induction bound with
  | zero => exact ⟨nofun, nofun, nofun⟩
  | succ bound ih =>
    have below {text : List UInt8} (short : text.length < bound + 1) : SafeBelow convert text.length := by
      have within {other : List UInt8} (less : other.length < text.length) : other.length < bound := by omega
      exact ⟨fun other less => ih.value other (within less), fun other less => ih.items other (within less),
        fun other less => ih.members other (within less)⟩
    refine ⟨fun text short escaped => value_safe (below short) escaped, fun text short escaped => ?_,
      fun text short escaped => members_safe (below short) escaped⟩
    exact items_safe (below short) (value_safe (below short) escaped) escaped

/-- On a text whose escapes are all complete the parser reads nothing behind the terminator and writes nothing
behind a buffer, well-formed or not. -/
theorem parse_defined (convert : Numeral → Int32) {text : CStr} (escaped : Escaped text.bytes) :
    ∃ root, cJSONParse convert text = .ok root := by
  obtain ⟨result, read, -⟩ := (safe_below _).value (skip text.bytes) (Nat.lt_succ_self _)
    (escaped.suffix (skip_suffix _))
  rw [cJSONParse, read]
  exact ⟨_, rfl⟩

/-- Whatever text arrives, as long as its escapes are complete: `cJSON_Parse` stays inside the text and inside its
own blocks, hands out a tree that owns all it has allocated, and hands out nothing and frees all of it where the
text is malformed. -/
theorem parse_stays_inside (convert : Numeral → Int32) (value : CStr) (fuel : Nat) (escaped : Escaped value.bytes)
    (enough : 2 * value.length + 1 ≤ fuel) : ∃ tree, cJSONParse convert value = .ok tree ∧
      ∀ heap : Heap Block, ∃ root after, OnHeap.cJSONParse convert fuel value heap = .ok (root, after) ∧
        sep (alone root (tree.map (none, ·))) (exactly heap.cells) after.cells := by
  obtain ⟨tree, parse⟩ := parse_defined convert escaped
  refine ⟨tree, parse, fun heap => ?_⟩
  obtain ⟨root, after, ran, owned⟩ := CJsonParsing.cJSONParse_rule parse enough (exactly heap.cells) heap
    (by rw [emp_sep]; rfl)
  refine ⟨root, after, ran, ?_⟩
  obtain ⟨one, two, apart, joined, kept, rest⟩ := owned
  exact ⟨one, two, apart, joined, (sep_holds.mp kept).2, rest⟩

/-- `["\u00e9\ud83d\ude00\\"`, which lacks its bracket. -/
def unclosed : CStr := .ofString "[\"\\u00e9\\ud83d\\ude00\\\\\""

theorem parse_stays_inside_unclosed : ∃ tree, cJSONParse (fun _ => 0) unclosed = .ok tree ∧
    ∀ heap : Heap Block, ∃ root after, OnHeap.cJSONParse (fun _ => 0) 100 unclosed heap = .ok (root, after) ∧
      sep (alone root (tree.map (none, ·))) (exactly heap.cells) after.cells :=
  parse_stays_inside _ unclosed 100 (by decide +kernel) (by decide)

end PhicommTC1.Proofs.ParseSafety
