import PhicommTC1.Httpd

/-! The query grammar of the `/switch` page and what `httpd_arg_find` makes of a URL. The code finds
the question mark and then searches the whole URL for the texts of the parameters. -/

namespace PhicommTC1.Proofs.QueryGrammar
open CText PhicommTC1
variable {url value : CStr} {k : Plug}

/-- The parameters behind the first question mark. A URL without one has no parameter but the empty text. -/
def parameters (url : CStr) : List (List UInt8) := ((url.bytes.dropWhile (· != 63)).drop 1).splitOn 38

/-- The value of a parameter whose name is `slot<k>` and whose value is 0 or 1. -/
def slotParameter (k : Plug) (parameter : List UInt8) : Option CStr :=
  if parameter = (slotText k zero).bytes then some zero
  else if parameter = (slotText k one).bytes then some one
  else none

/-- The first such parameter decides. -/
def slotValue (url : CStr) (k : Plug) : Option CStr := (parameters url).findSome? (slotParameter k)

/-- What the grammar makes of a URL: the six values, or nothing where one is missing. -/
def queryArgs (url : CStr) : Option (Plug → CStr) :=
  if (List.finRange 6).all fun k => (slotValue url k).isSome then some fun k => (slotValue url k).getD zero
  else none

def Occurs (k : Plug) (value url : CStr) : Prop := (slotText k value).bytes <:+: url.bytes

theorem zero_ne_one : zero ≠ one := by decide

theorem argSlot_zero (occurs : Occurs k zero url) : argSlot url k = some zero :=
  if_pos (strstr_iff.mpr occurs)

theorem argSlot_one (absent : ¬ Occurs k zero url) (occurs : Occurs k one url) : argSlot url k = some one := by
  rw [argSlot, if_neg (mt strstr_iff.mp absent), if_pos (strstr_iff.mpr occurs)]

theorem argSlot_none_iff : argSlot url k = none ↔ ¬ Occurs k zero url ∧ ¬ Occurs k one url := by
  by_cases first : Occurs k zero url
  · simp [argSlot_zero first, first]
  · by_cases second : Occurs k one url
    · simp [argSlot_one first second, second]
    · rw [argSlot, if_neg (mt strstr_iff.mp first), if_neg (mt strstr_iff.mp second)]
      exact ⟨fun _ => ⟨first, second⟩, fun _ => rfl⟩

theorem slotParameter_text {parameter : List UInt8} (found : slotParameter k parameter = some value) :
    (value = zero ∨ value = one) ∧ parameter = (slotText k value).bytes := by
  unfold slotParameter at found
  split at found
  next same => cases found; exact ⟨Or.inl rfl, same⟩
  next =>
    split at found
    next same => cases found; exact ⟨Or.inr rfl, same⟩
    next => cases found

theorem parameter_occurs {parameter : List UInt8} (member : parameter ∈ parameters url) : parameter <:+: url.bytes :=
  (infix_of_mem_splitOn member).trans
    ((List.drop_suffix 1 _).isInfix.trans (List.dropWhile_suffix _).isInfix)

theorem slotValue_facts (found : slotValue url k = some value) :
    (value = zero ∨ value = one) ∧ Occurs k value url := by
  obtain ⟨parameter, member, text⟩ := List.exists_of_findSome?_eq_some found
  obtain ⟨binary, same⟩ := slotParameter_text text
  exact ⟨binary, by rw [Occurs, ← same]; exact parameter_occurs member⟩

/-- Without a question mark there is no parameter. -/
theorem slotValue_mark (found : slotValue url k = some value) : 63 ∈ url.bytes := by
  by_contra missing
  have dropped : url.bytes.dropWhile (· != 63) = [] := by
    apply List.dropWhile_eq_nil_iff.mpr
    intro byte member
    simpa using fun same : byte = 63 => missing (same ▸ member)
  have empty : ∀ k : Plug, slotParameter k [] = none := by decide
  simp [slotValue, parameters, dropped, empty] at found

theorem httpdArgFind_some (mark : 63 ∈ url.bytes) (all : ∀ k, argSlot url k ≠ none) :
    httpdArgFind url = some fun k => (argSlot url k).getD zero := by
  apply if_pos
  simp [strchr, mark, Option.isSome_iff_ne_none, all]

theorem queryArgs_some (all : ∀ k, slotValue url k ≠ none) :
    queryArgs url = some fun k => (slotValue url k).getD zero := by
  apply if_pos
  simp [Option.isSome_iff_ne_none, all]

theorem queryArgs_none (missing : slotValue url k = none) : queryArgs url = none := by
  apply if_neg
  simp only [List.all_eq_true, List.mem_finRange, forall_const]
  intro all
  have found := all k
  rw [missing] at found
  cases found

theorem httpdArgFind_none (missing : argSlot url k = none) : httpdArgFind url = none := by
  apply if_neg
  simp only [Bool.and_eq_true, List.all_eq_true, List.mem_finRange, forall_const, not_and]
  intro _ all
  have found := all k
  rw [missing] at found
  cases found

theorem httpdArgFind_unmarked (missing : 63 ∉ url.bytes) : httpdArgFind url = none := by
  apply if_neg
  simp [strchr, missing]

/-- The parameter is there and the search does not meet a zero elsewhere before it finds a one. -/
def Positional (url : CStr) (k : Plug) : Prop :=
  slotValue url k = some zero ∨ slotValue url k = some one ∧ ¬ Occurs k zero url

theorem positional_argSlot (positional : Positional url k) : argSlot url k = slotValue url k := by
  rcases positional with found | found
  · rw [found, argSlot_zero (slotValue_facts found).2]
  · rw [found.1, argSlot_one found.2 (slotValue_facts found.1).2]

theorem argSlot_positional (found : slotValue url k = some value)
    (same : (argSlot url k).getD zero = value) : Positional url k := by
  rcases (slotValue_facts found).1 with rfl | rfl
  · exact Or.inl found
  · refine Or.inr ⟨found, ?_⟩
    intro occurs
    rw [argSlot_zero occurs] at same
    exact zero_ne_one same

/-- The code follows the grammar exactly when it has nothing to find, the question mark or the texts of
some slot being absent, or every slot has its parameter and no zero elsewhere hides a one. -/
theorem follows_grammar_iff (url : CStr) :
    httpdArgFind url = queryArgs url ↔
      63 ∉ url.bytes ∨ (∃ k, ¬ Occurs k zero url ∧ ¬ Occurs k one url) ∨ ∀ k, Positional url k := by
  constructor
  · intro follows
    by_cases mark : 63 ∈ url.bytes
    · by_cases missing : ∃ k, argSlot url k = none
      · obtain ⟨k, missing⟩ := missing
        exact Or.inr (Or.inl ⟨k, argSlot_none_iff.mp missing⟩)
      · refine Or.inr (Or.inr ?_)
        intro k
        rw [httpdArgFind_some mark (not_exists.mp missing)] at follows
        cases found : slotValue url k with
        | none => rw [queryArgs_none found] at follows; cases follows
        | some value =>
          have all (k : Plug) : slotValue url k ≠ none := by
            intro absent
            rw [queryArgs_none absent] at follows
            cases follows
          rw [queryArgs_some all] at follows
          apply argSlot_positional found
          rw [congrFun (Option.some.inj follows) k, found]
          rfl
    · exact Or.inl mark
  · intro condition
    rcases condition with missing | missing | positional
    · have absent : slotValue url 0 = none := by
        by_contra found
        obtain ⟨value, found⟩ := Option.ne_none_iff_exists'.mp found
        exact missing (slotValue_mark found)
      rw [httpdArgFind_unmarked missing, queryArgs_none absent]
    · obtain ⟨k, first, second⟩ := missing
      have absent : slotValue url k = none := by
        by_contra found
        obtain ⟨value, found⟩ := Option.ne_none_iff_exists'.mp found
        obtain ⟨rfl | rfl, occurs⟩ := slotValue_facts found
        · exact first occurs
        · exact second occurs
      rw [httpdArgFind_none (argSlot_none_iff.mpr ⟨first, second⟩), queryArgs_none absent]
    · have found (k : Plug) : slotValue url k ≠ none := by
        rcases positional k with found | found
        · simp [found]
        · simp [found.1]
      have same (k : Plug) : argSlot url k = slotValue url k := positional_argSlot (positional k)
      obtain ⟨value, present⟩ := Option.ne_none_iff_exists'.mp (found 0)
      rw [queryArgs_some found, httpdArgFind_some (slotValue_mark present)]
      · simp only [same]
      · intro k
        rw [same]
        exact found k

/-- Slot 0 is asked on first and off at the end. -/
def repeatedSlot : CStr := .ofString "/switch?slot0=1&slot1=0&slot2=0&slot3=0&slot4=0&slot5=0&slot0=0"

theorem repeated_slot_misread : ¬ ∀ url, httpdArgFind url = queryArgs url := by
  intro assumed
  have first := congrArg (Option.map fun slot => slot 0) (assumed repeatedSlot)
  revert first
  decide +kernel

end PhicommTC1.Proofs.QueryGrammar
