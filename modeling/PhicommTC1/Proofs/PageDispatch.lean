import PhicommTC1.Foundation.Runs
import PhicommTC1.HttpdPages

/-! Which page a request reaches. Registration stops at the end of the table. The lookup stops at a
free entry only, and compares no more than the first 49 bytes of the request's path. -/

namespace PhicommTC1.Proofs.PageDispatch
open CText PhicommTC1
variable {σ : Type} {calls : List (HttpdPage σ)}

/-- The table after a sequence of calls of `httpd_add_page`. -/
def pagesAfter (calls : List (HttpdPage σ)) : HttpdPages σ :=
  calls.foldl (fun pages page => (httpdAddPage page pages).2) .initial

/-- The calls fill the entries in their order. -/
def filled (calls : List (HttpdPage σ)) : HttpdPages σ := fun i => calls[i.val]?

theorem first_free (room : calls.length < 10) :
    (List.finRange HTTPD_MAX_PAGES).find? (fun i => (filled calls i).isNone) = some ⟨calls.length, room⟩ := by
  apply List.find?_eq_some_iff_getElem.mpr
  refine ⟨by simp [filled], calls.length, by simpa [HTTPD_MAX_PAGES] using room, by simp, ?_⟩
  intro earlier before
  simp [filled, before]

theorem none_free (full : ¬ calls.length < 10) :
    (List.finRange HTTPD_MAX_PAGES).find? (fun i => (filled calls i).isNone) = none := by
  apply List.find?_eq_none.mpr
  intro i _
  have taken : i.val < calls.length := Nat.lt_of_lt_of_le i.isLt (Nat.le_of_not_lt full)
  simp [filled, taken]

theorem filled_append (room : calls.length < 10) (page : HttpdPage σ) :
    Function.update (filled calls) ⟨calls.length, room⟩ (some page) = filled (calls ++ [page]) := by
  funext i
  by_cases last : i.val = calls.length
  · rw [show i = ⟨calls.length, room⟩ from Fin.ext last, Function.update_self]
    simp [filled]
  · rw [Function.update_of_ne fun same => last (congrArg Fin.val same)]
    rcases Nat.lt_or_gt_of_ne last with before | behind
    · simp [filled, List.getElem?_append_left before]
    · simp only [filled]
      rw [List.getElem?_eq_none (by omega), List.getElem?_eq_none (by simp; omega)]

theorem filled_full (full : ¬ calls.length < 10) (page : HttpdPage σ) : filled (calls ++ [page]) = filled calls := by
  funext i
  have taken : i.val < calls.length := Nat.lt_of_lt_of_le i.isLt (Nat.le_of_not_lt full)
  simp [filled, List.getElem?_append_left taken]

theorem addPage_filled (page : HttpdPage σ) (calls : List (HttpdPage σ)) :
    httpdAddPage page (filled calls) =
      if calls.length < 10 then (0, filled (calls ++ [page])) else (-1, filled calls) := by
  by_cases room : calls.length < 10
  · rw [httpdAddPage, first_free room, if_pos room, ← filled_append room]
  · rw [httpdAddPage, none_free room, if_neg room]

theorem pagesAfter_filled (calls : List (HttpdPage σ)) : pagesAfter calls = filled calls := by
  induction calls using List.reverseRecOn with
  | nil => rfl
  | append_singleton calls page ih =>
    rw [pagesAfter, List.foldl_append, ← pagesAfter, ih, List.foldl_cons, List.foldl_nil, addPage_filled]
    split
    next => rfl
    next full => exact (filled_full full page).symm

/-- The lookup over a table of any size: the first match, a free entry, or the end of a full table. -/
theorem findPage_filled (buf : CStr) (size : Nat) (calls : List (HttpdPage σ)) :
    findPage buf (List.ofFn fun i : Fin size => calls[i.val]?) =
      match (calls.take size).find? (fun page => page.url = buf) with
      | some page => .ok (some page)
      | none => if calls.length < size then .ok none else .error .outOfBounds := by
  induction size generalizing calls with
  | zero => simp [findPage]
  | succ size ih =>
    rw [List.ofFn_succ]
    cases calls with
    | nil => simp [findPage]
    | cons page calls =>
      by_cases same : page.url = buf
      · simp [findPage, same]
      · simpa [findPage, same] using ih calls

/-- The part of a URL before its first question mark. -/
def path (url : CStr) : CStr := cutAt 63 url

theorem buf_path (url : CStr) : cutAt 63 (firstBytes url) = firstBytes (path url) :=
  CStr.ext List.take_takeWhile.symm

theorem firstBytes_short {text : CStr} (short : text.length ≤ 49) : firstBytes text = text :=
  CStr.ext (List.take_of_length_le short)

theorem firstBytes_long {text : CStr} (long : 49 < text.length) : firstBytes text ≠ text := by
  intro same
  have cut := congrArg CStr.length same
  simp only [firstBytes, CStr.length, List.length_take] at cut long
  omega

/-- What a request is to get: the first page registered under its path is called, writes behind the header
and the result is 0, or there is none, the result is -1 and everything is as it was. -/
def dispatch (registered : List (HttpdPage σ)) (url rsp : CStr) (state : σ) : Served σ :=
  match registered.find? fun page => page.url = path url with
  | some page => {
    page := some page
    result := 0
    state := (page.callback url state).1
    rsp := httpHeader ++ (page.callback url state).2 }
  | none => {
    page := none
    result := -1
    state := state
    rsp := rsp }

/-- The calls fill the table entry by entry until it is full, and a request is served by the first
page registered under its path. -/
structure Dispatches (calls : List (HttpdPage σ)) (url rsp : CStr) (state : σ) : Prop where
  entries : ∀ i, pagesAfter calls i = calls[i.val]?
  added : ∀ page, httpdAddPage page (pagesAfter calls) =
    if calls.length < 10 then (0, pagesAfter (calls ++ [page])) else (-1, pagesAfter calls)
  served : httpdCallback (pagesAfter calls) url rsp state = .ok (dispatch (calls.take 10) url rsp state)

theorem dispatch_answer (registered : List (HttpdPage σ)) (url rsp : CStr) (state : σ) :
    dispatch registered url rsp state = answer url rsp state (registered.find? fun page => page.url = path url) := by
  unfold dispatch answer
  cases registered.find? fun page => page.url = path url <;> rfl

theorem answer_page (url rsp : CStr) (state : σ) (found : Option (HttpdPage σ)) :
    (answer url rsp state found).page = found := by
  cases found <;> rfl

/-- A call serves the right page exactly when the lookup finds it. -/
theorem served_iff (url rsp : CStr) (state : σ) :
    httpdCallback (pagesAfter calls) url rsp state = .ok (dispatch (calls.take 10) url rsp state) ↔
      findPage (firstBytes (path url)) (List.ofFn fun i : Fin 10 => calls[i.val]?) =
        .ok ((calls.take 10).find? fun page => page.url = path url) := by
  rw [httpdCallback, pagesAfter_filled, buf_path, Runs.map_ok, dispatch_answer]
  constructor
  · intro served
    obtain ⟨found, looked, same⟩ := served
    have page := congrArg Served.page same
    rw [answer_page, answer_page] at page
    rw [← page]
    exact looked
  · intro looked
    exact ⟨_, looked, rfl⟩

/-- A path that fits is looked up as it is, and only a full table without it does harm. -/
theorem short_iff {path : CStr} (short : path.length ≤ 49) :
    findPage (firstBytes path) (List.ofFn fun i : Fin 10 => calls[i.val]?) =
        .ok ((calls.take 10).find? fun page => page.url = path) ↔
      calls.length < 10 ∨ ∃ page ∈ calls.take 10, page.url = path := by
  rw [firstBytes_short short, findPage_filled]
  cases found : (calls.take 10).find? fun page => page.url = path with
  | some page =>
    have here : page.url = path := by simpa using List.find?_some found
    exact ⟨fun _ => Or.inr ⟨page, List.mem_of_find?_eq_some found, here⟩, fun _ => rfl⟩
  | none =>
    have missing (page : HttpdPage σ) (member : page ∈ calls.take 10) : page.url ≠ path := by
      simpa using List.find?_eq_none.mp found page member
    dsimp only
    split
    next room => exact ⟨fun _ => Or.inl room, fun _ => rfl⟩
    next full =>
      constructor
      · intro looked
        cases looked
      · intro condition
        rcases condition with room | ⟨page, member, same⟩
        · exact absurd room full
        · exact absurd same (missing page member)

/-- A longer path is compared cut off, so it has to miss every page both whole and cut off. -/
theorem long_iff {path : CStr} (long : 49 < path.length) :
    findPage (firstBytes path) (List.ofFn fun i : Fin 10 => calls[i.val]?) =
        .ok ((calls.take 10).find? fun page => page.url = path) ↔
      calls.length < 10 ∧ ∀ page ∈ calls.take 10, page.url ≠ path ∧ page.url ≠ firstBytes path := by
  rw [findPage_filled]
  constructor
  · intro looked
    cases cut : (calls.take 10).find? fun page => page.url = firstBytes path with
    | some page =>
      rw [cut] at looked
      have whole : page.url = path := by simpa using List.find?_some (Except.ok.inj looked).symm
      have same : page.url = firstBytes path := by simpa using List.find?_some cut
      exact absurd (same.symm.trans whole) (firstBytes_long long)
    | none =>
      rw [cut] at looked
      dsimp only at looked
      split at looked
      next room =>
        have none := (Except.ok.inj looked).symm
        refine ⟨room, ?_⟩
        intro page member
        exact ⟨by simpa using List.find?_eq_none.mp none page member,
          by simpa using List.find?_eq_none.mp cut page member⟩
      next => cases looked
  · intro condition
    obtain ⟨room, misses⟩ := condition
    have cut : (calls.take 10).find? (fun page => page.url = firstBytes path) = none := by
      apply List.find?_eq_none.mpr
      intro page member
      simpa using (misses page member).2
    have whole : (calls.take 10).find? (fun page => page.url = path) = none := by
      apply List.find?_eq_none.mpr
      intro page member
      simpa using (misses page member).1
    rw [cut, whole]
    exact if_pos room

/-- The lookup finds what a request is for: a path of at most 49 bytes that is registered or looked up in
a table with a free entry, or a longer one that misses a table with a free entry. -/
def Findable (calls : List (HttpdPage σ)) (path : CStr) : Prop :=
  path.length ≤ 49 ∧ (calls.length < 10 ∨ ∃ page ∈ calls.take 10, page.url = path) ∨
    49 < path.length ∧ calls.length < 10 ∧ ∀ page ∈ calls.take 10, page.url ≠ path ∧ page.url ≠ firstBytes path

theorem served_findable_iff (calls : List (HttpdPage σ)) (url rsp : CStr) (state : σ) :
    httpdCallback (pagesAfter calls) url rsp state = .ok (dispatch (calls.take 10) url rsp state) ↔
      Findable calls (path url) := by
  rw [served_iff, Findable]
  rcases Nat.lt_or_ge 49 (path url).length with long | short
  · rw [long_iff long]
    simp [long, Nat.not_le.mpr long]
  · rw [short_iff short]
    simp [short, Nat.not_lt.mpr short]

theorem dispatches_iff (calls : List (HttpdPage σ)) (url rsp : CStr) (state : σ) :
    Dispatches calls url rsp state ↔ Findable calls (path url) := by
  rw [← served_findable_iff calls url rsp state]
  constructor
  · intro dispatches
    exact dispatches.served
  · intro served
    refine ⟨?_, ?_, served⟩
    · intro i
      rw [pagesAfter_filled, filled]
    · intro page
      simp only [pagesAfter_filled, addPage_filled]

/-- Ten pages are registered, and the request is for none of them. -/
theorem full_table_overrun : ¬ ∀ (calls : List (HttpdPage Unit)) (url rsp : CStr) (state : Unit),
    Dispatches calls url rsp state := by
  intro assumed
  let styles : HttpdPage Unit := ⟨.ofString "/styles.css", fun _ state => (state, .ofString "")⟩
  have served := (assumed (List.replicate 10 styles) (.ofString "/") (.ofString "") ()).served
  have missed : ∀ page ∈ (List.replicate 10 styles).take 10, page.url ≠ path (.ofString "/") := by
    intro page member
    cases List.eq_of_mem_replicate (List.mem_of_mem_take member)
    decide
  rcases (served_findable_iff _ _ _ _).mp served with short | long
  · rcases short.2 with room | ⟨page, member, same⟩
    · exact absurd room (by decide)
    · exact missed page member same
  · exact absurd long.2.1 (by decide)

/-- The pages of the firmware leave the table free entries and have short names, so every request is
dispatched exactly. -/
theorem httpdInit_dispatches (stylesCbk switchCbk statusCbk : CStr → σ → σ × CStr) (url rsp : CStr) (state : σ) :
    httpdCallback (httpdInit stylesCbk switchCbk statusCbk) url rsp state =
      .ok (dispatch [⟨.ofString "/styles.css", stylesCbk⟩, ⟨.ofString "/switch", switchCbk⟩,
        ⟨.ofString "/status", statusCbk⟩] url rsp state) := by
  refine (served_findable_iff [⟨.ofString "/styles.css", stylesCbk⟩, ⟨.ofString "/switch", switchCbk⟩,
    ⟨.ofString "/status", statusCbk⟩] url rsp state).mpr ?_
  have few : ∀ first second third : HttpdPage σ, [first, second, third].length < 10 := fun _ _ _ => by simp
  rcases Nat.lt_or_ge 49 (path url).length with long | short
  · refine Or.inr ⟨long, few _ _ _, ?_⟩
    have whole : 49 < (firstBytes (path url)).length + 1 := by
      simp only [firstBytes, CStr.length, List.length_take] at long ⊢
      omega
    have apart (name : CStr) (brief : name.length < 12) : name ≠ path url ∧ name ≠ firstBytes (path url) := by
      constructor
      · rintro rfl
        omega
      · rintro rfl
        omega
    intro page member
    simp only [List.take_succ_cons, List.take_nil, List.mem_cons, List.not_mem_nil, or_false] at member
    rcases member with rfl | rfl | rfl
    · exact apart (.ofString "/styles.css") (by decide)
    · exact apart (.ofString "/switch") (by decide)
    · exact apart (.ofString "/status") (by decide)
  · exact Or.inl ⟨short, Or.inl (few _ _ _)⟩

end PhicommTC1.Proofs.PageDispatch
