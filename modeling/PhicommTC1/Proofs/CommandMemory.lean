import PhicommTC1.Device
import PhicommTC1.UserFunctionHeap
import PhicommTC1.Proofs.CJsonParsing
import PhicommTC1.Proofs.CJsonPrinting
import PhicommTC1.Proofs.PrintedText

/-! The command handler in memory does what it does on trees: it leaves the same state and sends the same texts,
and of the message and of its answers nothing is left. -/

namespace PhicommTC1.Proofs.CommandMemory
open CText PhicommTC1 Separation LinkedChain CJsonOwnership CJsonEdits

/-- A pointer into the message and the value it leads to. -/
structure Views (part : Cells Block) (fuel : Nat) (pointer : Pointer) (tree : Option CJson) : Prop where
  shown : ∃ key, Shows part pointer (tree.map (key, ·))
  small : ∀ found, tree = some found → items found ≤ fuel

section Reading
variable {part : Cells Block} {fuel p : Nat} {pointer : Pointer} {tree : CJson} {value : Option CJson}

theorem Views.none_iff (views : Views part fuel pointer value) : pointer = none ↔ value = none := by
  obtain ⟨key, shown⟩ := views.shown
  rw [shown.none_iff, Option.map_eq_none_iff]

/-- An item of the message, opened where it lies. -/
theorem Views.opened (views : Views part fuel (some p) (some tree)) : ∃ key sub before behind item last,
    Cells.Within sub part ∧ Placed tree before behind item ∧ body tree p key item last sub := by
  obtain ⟨key, sub, before, behind, within, owned⟩ := views.shown
  obtain ⟨item, last, placed, inside⟩ := owns_iff.mp owned
  exact ⟨key, sub, before, behind, item, last, within, placed, inside⟩

theorem body_chain {key : Option CStr} {item : Item} {last : Pointer} {cells : Cells Block}
    (owned : body tree p key item last cells) :
    ∃ rest, Cells.Within rest cells ∧ stretch owns none item.child (children tree) last none rest := by
  rw [body, ← sep_assoc, ← sep_assoc, sep_comm] at owned
  obtain ⟨one, two, apart, rfl, chain, -⟩ := owned
  exact ⟨one, Cells.within_join, chain⟩

/-- The first child under a key, with the key it has. -/
theorem find_child (tree : CJson) (key : CStr) : ∃ under : Option CStr,
    (children tree).find? (named key) = (tree.getObjectItem key).map (under, ·) := by
  cases tree with
  | object child =>
    rw [children, List.find?_map, CJson.getObjectItem]
    change ∃ under, Option.map _ (child.find? fun member => sameIgnoringCase member.1.bytes key.bytes) = _
    cases child.find? fun member => sameIgnoringCase member.1.bytes key.bytes with
    | none => exact ⟨none, rfl⟩
    | some member => exact ⟨some member.1, rfl⟩
  | array child =>
    refine ⟨none, ?_⟩
    rw [children, List.find?_map]
    change Option.map _ (child.find? fun _ => false) = none
    simp
  | _ => exact ⟨none, rfl⟩

theorem Views.get (views : Views part fuel (some p) (some tree)) (key : CStr) : ∃ found,
    Looks part (cJSONGetObjectItem fuel p key) found ∧ Views part fuel found (tree.getObjectItem key) := by
  obtain ⟨_, sub, before, behind, item, last, within, placed, inside⟩ := views.opened
  obtain ⟨rest, lies, chain⟩ := body_chain inside
  have count := items_eq tree
  have small := views.small tree rfl
  have short := length_le_turns (children tree)
  obtain ⟨found, looks, shown⟩ := seekKey_looks key (show (children tree).length ≤ fuel by omega) chain
  have deep := lies.trans within
  refine ⟨found, ((body_looks inside).widen within).bind ((looks.widen deep).bind Looks.pure), ?_, ?_⟩
  · obtain ⟨under, same⟩ := find_child tree key
    rw [same] at shown
    exact ⟨under, shown.widen deep⟩
  · intro child same
    obtain ⟨under, entry⟩ := find_child tree key
    rw [same] at entry
    have member := items_le_turns (List.mem_of_find?_eq_some entry)
    change items child ≤ _ at member
    omega

/-- The string of an item, if it has one. -/
theorem body_value {key : Option CStr} {item : Item} {last : Pointer} {cells : Cells Block}
    (owned : body tree p key item last cells) : match item.valuestring, tree.valuestring with
      | some string, some value => Looks cells (loadText (some string)) value
      | none, none => True
      | _, _ => False := by
  rw [body, ← sep_assoc, ← sep_assoc, sep_assoc, sep_comm, sep_assoc] at owned
  cases stored : item.valuestring with
  | none =>
    rw [stored] at owned
    cases value : tree.valuestring with
    | none => trivial
    | some _ => rw [value] at owned; exact (sep_holds.mp owned).1
  | some string =>
    rw [stored] at owned
    cases value : tree.valuestring with
    | none => rw [value] at owned; exact (sep_holds.mp owned).1
    | some value' =>
      rw [value] at owned
      exact loadText_looks (block_found owned)

theorem Views.string (views : Views part fuel pointer value) :
    Looks part (OnHeap.stringAt pointer) (value.bind CJson.valuestring) := by
  cases pointer with
  | none =>
    rw [views.none_iff.mp rfl]
    exact Looks.pure
  | some p =>
    cases value with
    | none => cases views.none_iff.mpr rfl
    | some tree =>
      obtain ⟨key, sub, before, behind, item, last, within, placed, inside⟩ := views.opened
      have stored := body_value inside
      refine ((body_looks inside).widen within).bind ?_
      rw [placed.fits.kind]
      cases tree with
      | string text =>
        split at stored
        next string value here same =>
          rw [if_pos (show kindOf (CJson.string text) = .string from rfl), here]
          cases same
          exact (stored.widen within).map some
        next here same => cases same
        next => exact stored.elim
      | _ => exact Looks.pure

theorem Views.number (views : Views part fuel pointer value) :
    Looks part (OnHeap.numberAt pointer) (value.bind CJson.numberValue) := by
  cases pointer with
  | none =>
    rw [views.none_iff.mp rfl]
    exact Looks.pure
  | some p =>
    cases value with
    | none => cases views.none_iff.mpr rfl
    | some tree =>
      obtain ⟨key, sub, before, behind, item, last, within, placed, inside⟩ := views.opened
      refine ((body_looks inside).widen within).bind ?_
      rw [placed.fits.kind]
      cases tree with
      | number number =>
        rw [if_pos (show kindOf (CJson.number number) = .number from rfl), placed.fits.number number rfl]
        exact Looks.pure
      | _ => exact Looks.pure

theorem Views.valuestring (views : Views part fuel (some p) (some tree)) :
    Looks part (OnHeap.valuestringAt p) tree.valuestring := by
  obtain ⟨key, sub, before, behind, item, last, within, placed, inside⟩ := views.opened
  have stored := body_value inside
  refine ((body_looks inside).widen within).bind ?_
  split at stored
  next string value here same =>
    rw [here, same]
    exact (stored.widen within).map some
  next here same =>
    rw [here, same]
    exact Looks.pure
  next => exact stored.elim

theorem Views.storeString (views : Views part fuel pointer value) {store : CStr → State → Exec State} {state stored : State}
    (ran : PhicommTC1.storeString store value state = .ok stored) :
    Looks part (OnHeap.storeString store pointer state) stored := by
  refine views.string.bind ?_
  rw [PhicommTC1.storeString] at ran
  cases found : value.bind CJson.valuestring with
  | none =>
    rw [found] at ran
    cases ran
    exact Looks.pure
  | some format =>
    rw [found] at ran
    change Looks part (lift (store format state)) stored
    rw [show store format state = .ok stored from ran]
    exact Looks.pure

theorem Views.storeMqttPort (views : Views part fuel pointer value) (state : State) :
    Looks part (OnHeap.storeMqttPort pointer state) (PhicommTC1.storeMqttPort value state) := by
  refine views.number.bind ?_
  rw [PhicommTC1.storeMqttPort]
  cases value.bind CJson.numberValue <;> exact Looks.pure

theorem Views.switchPlug (views : Views part fuel pointer value) (x : Plug) (state : State) :
    Looks part (OnHeap.switchPlug x pointer state) (PhicommTC1.switchPlug x value state) := by
  refine views.number.bind ?_
  rw [PhicommTC1.switchPlug]
  cases value.bind CJson.numberValue <;> exact Looks.pure

/-- Whether all members are there is asked before any is known to be a number. -/
theorem taskOf_eq (tree : CJson) : taskOf tree = (do
    let hour ← (tree.getObjectItem (.ofString "hour")).bind CJson.numberValue
    let minute ← (tree.getObjectItem (.ofString "minute")).bind CJson.numberValue
    let repeats ← (tree.getObjectItem (.ofString "repeat")).bind CJson.numberValue
    let action ← (tree.getObjectItem (.ofString "action")).bind CJson.numberValue
    let on ← (tree.getObjectItem (.ofString "on")).bind CJson.numberValue
    return ⟨toByte hour, toByte minute, toByte repeats, toByte action, toByte on⟩) := by
  apply Option.ext
  intro task
  simp only [taskOf, Option.bind_eq_bind, Option.bind_eq_some_iff]
  constructor
  · rintro ⟨pHour, h, pMinute, m, pRepeat, r, pAction, a, pOn, o, hour, hn, minute, mn, repeats, rn, action, an, on, on', same⟩
    exact ⟨hour, ⟨pHour, h, hn⟩, minute, ⟨pMinute, m, mn⟩, repeats, ⟨pRepeat, r, rn⟩, action, ⟨pAction, a, an⟩, on,
      ⟨pOn, o, on'⟩, same⟩
  · rintro ⟨hour, ⟨pHour, h, hn⟩, minute, ⟨pMinute, m, mn⟩, repeats, ⟨pRepeat, r, rn⟩, action, ⟨pAction, a, an⟩, on,
      ⟨pOn, o, on'⟩, same⟩
    exact ⟨pHour, h, pMinute, m, pRepeat, r, pAction, a, pOn, o, hour, hn, minute, mn, repeats, rn, action, an, on, on', same⟩

theorem Views.task (views : Views part fuel (some p) (some tree)) : Looks part (OnHeap.taskAt fuel p) (taskOf tree) := by
  obtain ⟨pHour, atHour, hour⟩ := views.get (.ofString "hour")
  obtain ⟨pMinute, atMinute, minute⟩ := views.get (.ofString "minute")
  obtain ⟨pRepeat, atRepeat, repeats⟩ := views.get (.ofString "repeat")
  obtain ⟨pAction, atAction, action⟩ := views.get (.ofString "action")
  obtain ⟨pOn, atOn, on⟩ := views.get (.ofString "on")
  refine atHour.bind (atMinute.bind (atRepeat.bind (atAction.bind (atOn.bind ?_))))
  refine hour.number.bind (minute.number.bind (repeats.number.bind (action.number.bind (on.number.bind ?_))))
  rw [taskOf_eq]
  cases (tree.getObjectItem (.ofString "hour")).bind CJson.numberValue with
  | none => exact Looks.pure
  | some hour =>
    cases (tree.getObjectItem (.ofString "minute")).bind CJson.numberValue with
    | none => exact Looks.pure
    | some minute =>
      cases (tree.getObjectItem (.ofString "repeat")).bind CJson.numberValue with
      | none => exact Looks.pure
      | some repeats =>
        cases (tree.getObjectItem (.ofString "action")).bind CJson.numberValue with
        | none => exact Looks.pure
        | some action =>
          cases (tree.getObjectItem (.ofString "on")).bind CJson.numberValue <;> exact Looks.pure

end Reading

/-- An object that hangs nowhere yet. -/
def answer (object : Nat) (members : Members) : Assertion Block :=
  hung object { Item.zero with kind := .object } (children (.object members))

section Answers
variable {fuel object : Nat} {members : Members} {name : CStr}

theorem owns_answer : ∀ cells, answer object members cells → owns none object (none, .object members) none cells := by
  rintro cells ⟨⟨child, last⟩, owned⟩
  refine owns_iff.mpr ⟨{ Item.zero with kind := .object, child := child }, last, ⟨rfl, rfl, rfl, rfl, rfl, nofun⟩, ?_⟩
  rw [body]
  change sep _ (sep emp (sep emp _)) cells
  rwa [emp_sep, emp_sep]

theorem create_rule : Triple emp (cJSONCreate .object) fun object => answer object [] := by
  refine Triple.bind (alloc_triple (Block.item .zero)) fun object => ?_
  refine Triple.bind (modifyItem_rule _) fun _ => ?_
  apply Triple.pure
  intro cells owned
  refine ⟨(none, none), ?_⟩
  change sep _ (stretch owns none none [] none none) cells
  rw [CJsonParsing.empty_chain, sep_emp]
  exact owned

theorem added_rule {new : Nat} {tree : CJson} (room : members.length ≤ fuel) :
    Triple (sep (answer object members) (owns none new (none, tree) none)) (cJSONAddItemToObject fuel object name new)
      fun _ => answer object (members.addItem name tree) := by
  have length : (children (.object members)).length = members.length := List.length_map _
  apply (addItemToObject_rule name (by omega)).weaken (fun _ kept => kept)
  intro _ cells owned
  rwa [answer, Members.addItem, children, List.map_append]

theorem addNumber_rule (number : Int32) (room : members.length ≤ fuel) :
    Triple (answer object members) (cJSONAddNumberToObject fuel object name number)
      fun _ => answer object (members.addItem name (.number number)) := by
  have created : Triple emp (cJSONCreateNumber number) fun item => owns none item (none, .number number) none := by
    refine Triple.bind (alloc_triple (Block.item .zero)) fun item => ?_
    refine Triple.bind (modifyItem_rule _) fun _ => ?_
    apply Triple.pure
    intro cells owned
    have fits : Fits (.number number) { Item.zero with kind := .number, valueint := number } :=
      ⟨rfl, rfl, rfl, fun value same => CJson.number.inj same⟩
    rw [← sep_emp (block _ _)] at owned
    exact CJsonParsing.owns_leaf ⟨rfl, rfl, fits⟩ rfl rfl rfl rfl owned
  refine Triple.step emp _ (emp_sep _).symm created fun item => ?_
  rw [sep_comm]
  exact added_rule room

theorem addString_rule (string : CStr) (room : members.length ≤ fuel) :
    Triple (answer object members) (OnHeap.addString fuel object name (some string))
      fun _ => answer object (members.addItem name (.string string)) := by
  have created : Triple emp (cJSONCreateString string) fun item => owns none item (none, .string string) none := by
    refine Triple.bind (alloc_triple (Block.item .zero)) fun item => ?_
    refine Triple.step emp _ (emp_sep _).symm (alloc_triple (Block.text string)) fun valuestring => ?_
    refine Triple.step (block item (.item .zero)) (block valuestring (.text string)) (sep_comm _ _) (modifyItem_rule _)
      fun _ => ?_
    apply Triple.pure
    intro cells owned
    refine owns_iff.mpr ⟨{ Item.zero with kind := .string, valuestring := some valuestring }, none,
      ⟨rfl, rfl, rfl, rfl, rfl, nofun⟩, ?_⟩
    rw [body]
    change sep _ (sep emp (sep _ (stretch owns none none [] none none))) cells
    rwa [CJsonParsing.empty_chain, emp_sep, sep_emp]
  refine Triple.step emp _ (emp_sep _).symm created fun item => ?_
  rw [sep_comm]
  exact added_rule room

theorem addByte_rule (byte : UInt8) (room : members.length ≤ fuel) :
    Triple (answer object members) (OnHeap.addByte fuel object name byte)
      fun _ => answer object (members.addByte name byte) :=
  addNumber_rule _ room

/-- An answer is hung below another. -/
theorem attach_rule {sub : Nat} {below : Members} (room : members.length ≤ fuel) :
    Triple (sep (answer sub below) (answer object members)) (cJSONAddItemToObject fuel object name sub)
      fun _ => answer object (members.addItem name (.object below)) := by
  rw [sep_comm]
  exact (added_rule room).given (sep_mono (fun _ kept => kept) owns_answer)

/-- An answer is printed, sent and gone. -/
theorem sendJson_rule (enough : 2 * items (.object members) ≤ fuel) : Triple (answer object members)
    (OnHeap.sendJson fuel object) fun text => holds (text = CJsonPrinting.printed true 0 (.object members)) := by
  refine Triple.given (Triple.bind (CJsonPrinting.cJSONPrint_rule enough) fun out => ?_) owns_answer
  rw [sep_comm]
  refine Triple.look (fun _ owned => loadText_looks (block_found owned)) ?_
  refine Triple.step _ _ rfl (free_triple _) fun _ => ?_
  rw [emp_sep]
  have single : turns [((none : Option CStr), CJson.object members)] ≤ fuel := by
    change items (.object members) ≤ fuel
    omega
  refine Triple.bind ((delete_rule single).given fun _ node => stretch_single node) fun _ => ?_
  exact Triple.pure fun _ empty => ⟨rfl, empty⟩

end Answers

section Beside
variable {α β : Type} {part : Cells Block} {kept : Assertion Block} {program : OnHeap α} {rest : α → OnHeap β}
  {post : β → Assertion Block}

theorem reading {value : α} (looks : Looks part program value) (next : Triple (sep (exactly part) kept) (rest value) post) :
    Triple (sep (exactly part) kept) (program >>= rest) post :=
  Triple.look (fun _ => Looks.beside fun _ same => same ▸ looks) next

theorem building {middle : α → Assertion Block} (valid : Triple kept program middle)
    (next : ∀ value, Triple (sep (exactly part) (middle value)) (rest value) post) :
    Triple (sep (exactly part) kept) (program >>= rest) post := by
  refine Triple.step kept (exactly part) (sep_comm _ _) valid fun value => ?_
  rw [sep_comm]
  exact next value

theorem lifted {value : α} {computation : Exec α} (ran : computation = .ok value) {given : Assertion Block}
    (next : Triple given (rest value) post) : Triple given (lift computation >>= rest) post := by
  rw [ran]
  exact next

theorem creating {further : Nat → OnHeap β}
    (next : ∀ object, Triple (sep (exactly part) (sep (answer object []) kept)) (further object) post) :
    Triple (sep (exactly part) kept) (cJSONCreate .object >>= further) post := by
  refine Triple.step emp _ (emp_sep _).symm create_rule fun object => ?_
  exact Triple.arranged _ (by ac_rfl) (next object)

end Beside

/-- What is left of one section: the state, and the answer beside the message. -/
def leaves (part : Cells Block) (json : Nat) (work : State × Members) (state : State) : Assertion Block :=
  sep (holds (state = work.1)) (sep (exactly part) (answer json work.2))

section Sections
variable {part : Cells Block} {fuel object : Nat} {pointer : Pointer} {value : Option CJson} {tree : CJson}
  {send sent : Members} {key : CStr}

theorem leaves_pure (json : Nat) (work : State × Members) : Triple (sep (exactly part) (answer json work.2))
    (pure work.1 : OnHeap State) (leaves part json work) := Triple.pure fun _ owned => sep_holds.mpr ⟨rfl, owned⟩

theorem addString_length {string : Option CStr} (ran : send.addString key string = .ok sent) :
    sent.length = send.length + 1 := by
  cases string with
  | none => cases ran
  | some string =>
    cases ran
    exact List.length_append

theorem echoString_length {stored : Exec CStr} (ran : PhicommTC1.echoString key value stored send = .ok sent) :
    sent.length ≤ send.length + 1 := by
  cases value with
  | none => cases ran; exact Nat.le_succ _
  | some _ =>
    obtain ⟨string, -, ran⟩ := Runs.bind_ok.mp ran
    exact Nat.le_of_eq (addString_length ran)

theorem echoOta_length (ran : PhicommTC1.echoOta value send = .ok sent) : sent.length ≤ send.length + 1 := by
  cases value with
  | none => cases ran; exact Nat.le_succ _
  | some _ => exact Nat.le_of_eq (addString_length ran)

theorem echoMqttPort_length (config : UConfig) : (PhicommTC1.echoMqttPort value config send).length ≤ send.length + 1 := by
  cases value with
  | none => exact Nat.le_succ _
  | some _ => exact Nat.le_of_eq List.length_append

theorem echoString_rule (views : Views part fuel pointer value) {stored : Exec CStr}
    (ran : PhicommTC1.echoString key value stored send = .ok sent) (room : send.length ≤ fuel) :
    Triple (answer object send) (OnHeap.echoString fuel object key pointer stored) fun _ => answer object sent := by
  cases pointer with
  | none =>
    rw [views.none_iff.mp rfl] at ran
    cases ran
    exact Triple.pure fun _ owned => owned
  | some p =>
    cases value with
    | none => cases views.none_iff.mpr rfl
    | some _ =>
      obtain ⟨string, read, ran⟩ := Runs.bind_ok.mp ran
      cases ran
      exact lifted read (addString_rule string room)

theorem echoOta_rule {kept : Assertion Block} (views : Views part fuel pointer value)
    (ran : PhicommTC1.echoOta value send = .ok sent) (room : send.length ≤ fuel) :
    Triple (sep (exactly part) (sep (answer object send) kept)) (OnHeap.echoOta fuel object pointer)
      fun _ => sep (exactly part) (sep (answer object sent) kept) := by
  cases pointer with
  | none =>
    rw [views.none_iff.mp rfl] at ran
    cases ran
    exact Triple.pure fun _ owned => owned
  | some p =>
    cases value with
    | none => cases views.none_iff.mpr rfl
    | some tree =>
      refine reading views.valuestring ?_
      change send.addString (.ofString "ota") tree.valuestring = .ok sent at ran
      cases stored : tree.valuestring with
      | none => rw [stored] at ran; cases ran
      | some string =>
        rw [stored] at ran
        cases ran
        refine Triple.finish (answer object send) (sep (exactly part) kept) (by ac_rfl) (addString_rule string room)
          fun _ cells owned => ?_
        rwa [← sep_assoc, sep_comm (answer _ _), sep_assoc] at owned

theorem echoMqttPort_rule (views : Views part fuel pointer value) (config : UConfig) (room : send.length ≤ fuel) :
    Triple (answer object send) (OnHeap.echoMqttPort fuel object pointer config)
      fun _ => answer object (PhicommTC1.echoMqttPort value config send) := by
  cases pointer with
  | none =>
    rw [views.none_iff.mp rfl]
    exact Triple.pure fun _ owned => owned
  | some p =>
    cases value with
    | none => cases views.none_iff.mpr rfl
    | some _ => exact addNumber_rule _ room

theorem settingSection_rule {json root : Nat} {state : State} {work : State × Members}
    (views : Views part fuel (some root) (some tree))
    (ran : PhicommTC1.settingSection (tree.getObjectItem (.ofString "setting")) (state, send) = .ok work)
    (room : send.length ≤ fuel) (six : 6 ≤ fuel) : Triple (sep (exactly part) (answer json send))
      (OnHeap.settingSection fuel root json state) (leaves part json work) := by
  obtain ⟨pSetting, found, setting⟩ := views.get (.ofString "setting")
  refine reading found ?_
  cases pSetting with
  | none =>
    rw [setting.none_iff.mp rfl] at ran
    cases ran
    exact leaves_pure json (state, send)
  | some pSetting =>
    cases shown : tree.getObjectItem (.ofString "setting") with
    | none => rw [shown] at setting; cases setting.none_iff.mpr rfl
    | some tree =>
      rw [shown] at setting ran
      obtain ⟨stored, stores, ran⟩ := Runs.bind_ok.mp ran
      obtain ⟨settingSend, echoes, ran⟩ := Runs.bind_ok.mp ran
      cases ran
      obtain ⟨named, setName, stores⟩ := Runs.bind_ok.mp stores
      obtain ⟨withIp, setIp, stores⟩ := Runs.bind_ok.mp stores
      obtain ⟨withUser, setUser, setPassword⟩ := Runs.bind_ok.mp stores
      obtain ⟨ota, echoOta, echoes⟩ := Runs.bind_ok.mp echoes
      obtain ⟨name, echoName, echoes⟩ := Runs.bind_ok.mp echoes
      obtain ⟨ip, echoIp, echoes⟩ := Runs.bind_ok.mp echoes
      obtain ⟨user, echoUser, echoPassword⟩ := Runs.bind_ok.mp echoes
      obtain ⟨pOta, atOta, viewOta⟩ := setting.get (.ofString "ota")
      obtain ⟨pName, atName, viewName⟩ := setting.get (.ofString "name")
      obtain ⟨pIp, atIp, viewIp⟩ := setting.get (.ofString "mqtt_uri")
      obtain ⟨pPort, atPort, viewPort⟩ := setting.get (.ofString "mqtt_port")
      obtain ⟨pUser, atUser, viewUser⟩ := setting.get (.ofString "mqtt_user")
      obtain ⟨pPassword, atPassword, viewPassword⟩ := setting.get (.ofString "mqtt_password")
      have afterOta := echoOta_length echoOta
      have afterName := echoString_length echoName
      have afterIp := echoString_length echoIp
      have afterPort := @echoMqttPort_length (tree.getObjectItem (.ofString "mqtt_port")) ip stored.uConfig
      have afterUser := echoString_length echoUser
      have none_ : ([] : Members).length = 0 := rfl
      refine reading atOta ?_
      refine creating fun sub => ?_
      refine reading atName (reading (viewName.storeString setName) ?_)
      refine reading atIp (reading (viewIp.storeString setIp) ?_)
      refine reading atPort (reading (viewPort.storeMqttPort _) ?_)
      refine reading atUser (reading (viewUser.storeString setUser) ?_)
      refine reading atPassword (reading (viewPassword.storeString setPassword) ?_)
      refine Triple.bind (echoOta_rule viewOta echoOta (by omega)) fun _ => ?_
      refine building ((echoString_rule viewName echoName (by omega)).frame _) fun _ => ?_
      refine building ((echoString_rule viewIp echoIp (by omega)).frame _) fun _ => ?_
      refine building ((echoMqttPort_rule viewPort _ (by omega)).frame _) fun _ => ?_
      refine building ((echoString_rule viewUser echoUser (by omega)).frame _) fun _ => ?_
      refine building ((echoString_rule viewPassword echoPassword (by omega)).frame _) fun _ => ?_
      refine building (attach_rule room) fun _ => ?_
      exact leaves_pure json (_, _)

theorem task_rule {x : Plug} {json root : Nat} {work : State × Members} (y : Slot)
    (views : Views part fuel (some root) (some tree)) (room : work.2.length ≤ fuel) (five : 5 ≤ fuel) :
    Triple (sep (exactly part) (answer json work.2)) (OnHeap.jsonPlugTaskAnalysis fuel x root json work.1 y)
      (leaves part json (PhicommTC1.jsonPlugTaskAnalysis x tree work y)) := by
  obtain ⟨pTask, found, task⟩ := views.get (plugTaskStr y)
  refine reading found ?_
  rw [PhicommTC1.jsonPlugTaskAnalysis]
  cases pTask with
  | none =>
    rw [task.none_iff.mp rfl]
    exact leaves_pure json work
  | some pTask =>
    cases shown : tree.getObjectItem (plugTaskStr y) with
    | none => rw [shown] at task; cases task.none_iff.mpr rfl
    | some tree =>
      rw [shown] at task
      refine creating fun sub => ?_
      refine reading task.task ?_
      refine building ((addByte_rule _ (by change 0 ≤ fuel; omega)).frame _) fun _ => ?_
      refine building ((addByte_rule _ (by change 1 ≤ fuel; omega)).frame _) fun _ => ?_
      refine building ((addByte_rule _ (by change 2 ≤ fuel; omega)).frame _) fun _ => ?_
      refine building ((addByte_rule _ (by change 3 ≤ fuel; omega)).frame _) fun _ => ?_
      refine building ((addByte_rule _ (by change 4 ≤ fuel; omega)).frame _) fun _ => ?_
      refine building (attach_rule room) fun _ => ?_
      exact leaves_pure json (_, _)

theorem task_length (x : Plug) (tree : CJson) (work : State × Members) (y : Slot) :
    (PhicommTC1.jsonPlugTaskAnalysis x tree work y).2.length ≤ work.2.length + 1 := by
  rw [PhicommTC1.jsonPlugTaskAnalysis]
  split
  · exact Nat.le_succ _
  · exact Nat.le_of_eq List.length_append

/-- A loop whose body adds at most one member to the answer. -/
theorem loop_rule {ι : Type} {json : Nat} {body : State × Members → ι → Exec (State × Members)}
    {program : State → ι → OnHeap State} (grows : ∀ work index after, body work index = .ok after →
      after.2.length ≤ work.2.length + 1)
    (each : ∀ work index after, body work index = .ok after → work.2.length ≤ fuel →
      Triple (sep (exactly part) (answer json work.2)) (program work.1 index) (leaves part json after))
    (indices : List ι) {work last : State × Members} (ran : indices.foldlM body work = .ok last)
    (room : work.2.length + indices.length ≤ fuel) :
    Triple (sep (exactly part) (answer json work.2)) (indices.foldlM program work.1) (leaves part json last) := by
  induction indices generalizing work with
  | nil =>
    cases ran
    exact leaves_pure json _
  | cons index indices ih =>
    rw [List.foldlM_cons] at ran ⊢
    obtain ⟨after, step, ran⟩ := Runs.bind_ok.mp ran
    have more := grows work index after step
    rw [List.length_cons] at room
    refine Triple.bind (each work index after step (by omega)) fun state => ?_
    apply Triple.assuming
    rintro rfl
    exact ih ran (by omega)

theorem plugSetting_rule {x : Plug} {json p : Nat} {state : State} {work : State × Members}
    (views : Views part fuel (some p) (some tree)) (ran : PhicommTC1.jsonPlugSettingAnalysis x tree state = .ok work)
    (six : 6 ≤ fuel) : Triple (sep (exactly part) (answer json [])) (OnHeap.jsonPlugSettingAnalysis fuel x p json state)
      (leaves part json (work.1, Members.addItem [] (.ofString "setting") (.object work.2))) := by
  obtain ⟨stored, stores, ran⟩ := Runs.bind_ok.mp ran
  obtain ⟨named, echoes, ran⟩ := Runs.bind_ok.mp ran
  cases ran
  obtain ⟨pName, atName, name⟩ := views.get (.ofString "name")
  have short := echoString_length echoes
  have none_ : ([] : Members).length = 0 := rfl
  refine creating fun sub => ?_
  refine reading atName (reading (name.storeString stores) ?_)
  refine building ((echoString_rule name echoes (by omega)).frame _) fun _ => ?_
  have tasks := @loop_rule part fuel Slot sub (fun work y => .ok (PhicommTC1.jsonPlugTaskAnalysis x tree work y))
    (OnHeap.jsonPlugTaskAnalysis fuel x p sub) (fun work y after same => by cases same; exact task_length x tree work y)
    (fun work y after same room => by cases same; exact task_rule y views room (by omega)) (List.finRange 5)
    (stored, named) _ List.foldlM_pure (by rw [List.length_finRange]; change named.length + 5 ≤ fuel; omega)
  refine Triple.step (sep (exactly part) (answer sub named)) (answer json []) (by ac_rfl) tasks fun state => ?_
  rw [leaves, sep_assoc]
  apply Triple.assuming
  rintro rfl
  rw [sep_assoc]
  refine building (attach_rule (by omega)) fun _ => ?_
  exact leaves_pure json (_, _)

theorem plugObject_rule {x : Plug} {json : Nat} {state : State} {work : State × Members}
    (views : Views part fuel pointer value) (ran : PhicommTC1.jsonPlugObject x value state = .ok work) (six : 6 ≤ fuel) :
    Triple (sep (exactly part) (answer json [])) (OnHeap.jsonPlugObject fuel x pointer json state)
      (leaves part json work) ∧ work.2.length ≤ 1 := by
  cases pointer with
  | none =>
    rw [views.none_iff.mp rfl] at ran
    cases ran
    exact ⟨leaves_pure json (state, []), Nat.zero_le _⟩
  | some p =>
    cases value with
    | none => cases views.none_iff.mpr rfl
    | some tree =>
      obtain ⟨pOn, atOn, on⟩ := views.get (.ofString "on")
      obtain ⟨pSetting, atSetting, setting⟩ := views.get (.ofString "setting")
      rw [PhicommTC1.jsonPlugObject] at ran
      cases shown : tree.getObjectItem (.ofString "setting") with
      | none =>
        rw [shown] at setting ran
        cases ran
        refine ⟨reading atOn (reading (on.switchPlug x state) (reading atSetting ?_)), Nat.zero_le _⟩
        rw [setting.none_iff.mpr rfl]
        exact leaves_pure json (_, [])
      | some settingTree =>
        rw [shown] at setting ran
        obtain ⟨inner_, ran_, ran⟩ := Runs.bind_ok.mp ran
        cases ran
        refine ⟨reading atOn (reading (on.switchPlug x state) (reading atSetting ?_)), Nat.le_refl _⟩
        cases pSetting with
        | none => cases setting.none_iff.mp rfl
        | some pSetting => exact plugSetting_rule setting ran_ six

theorem plug_rule {json root : Nat} {work after : State × Members} (x : Plug) (views : Views part fuel (some root) (some tree))
    (ran : PhicommTC1.jsonPlugAnalysis tree work x = .ok after) (room : work.2.length ≤ fuel) (six : 6 ≤ fuel) :
    Triple (sep (exactly part) (answer json work.2)) (OnHeap.jsonPlugAnalysis fuel root json work.1 x)
      (leaves part json after) := by
  obtain ⟨⟨state, plugSend⟩, object, ran⟩ := Runs.bind_ok.mp ran
  cases ran
  obtain ⟨pPlug, found, plug⟩ := views.get (plugStr x)
  refine reading found (creating fun sub => ?_)
  obtain ⟨inside, short⟩ := @plugObject_rule part fuel pPlug _ x sub work.1 _ plug object six
  refine Triple.step (sep (exactly part) (answer sub [])) (answer json work.2) (by ac_rfl) inside fun state => ?_
  rw [leaves, sep_assoc]
  apply Triple.assuming
  rintro rfl
  rw [sep_assoc]
  refine building ((addByte_rule _ (by omega)).frame _) fun _ => ?_
  refine building (attach_rule room) fun _ => ?_
  exact leaves_pure json (_, _)

theorem plug_length {work after : State × Members} (x : Plug)
    (ran : PhicommTC1.jsonPlugAnalysis tree work x = .ok after) : after.2.length ≤ work.2.length + 1 := by
  obtain ⟨result, -, ran⟩ := Runs.bind_ok.mp ran
  cases ran
  exact Nat.le_of_eq List.length_append

theorem loop_length {ι : Type} {body : State × Members → ι → Exec (State × Members)}
    (grows : ∀ work index after, body work index = .ok after → after.2.length ≤ work.2.length + 1)
    (indices : List ι) {work last : State × Members} (ran : indices.foldlM body work = .ok last) :
    last.2.length ≤ work.2.length + indices.length := by
  induction indices generalizing work with
  | nil => cases ran; exact Nat.le_refl _
  | cons index indices ih =>
    rw [List.foldlM_cons] at ran
    obtain ⟨after, step, ran⟩ := Runs.bind_ok.mp ran
    have first := grows work index after step
    have rest := ih ran
    rw [List.length_cons]
    omega

theorem setting_length {setting : Option CJson} {work after : State × Members}
    (ran : PhicommTC1.settingSection setting work = .ok after) : after.2.length ≤ work.2.length + 1 := by
  cases setting with
  | none => cases ran; exact Nat.le_succ _
  | some tree =>
    obtain ⟨stored, -, ran⟩ := Runs.bind_ok.mp ran
    obtain ⟨settingSend, -, ran⟩ := Runs.bind_ok.mp ran
    cases ran
    exact Nat.le_of_eq List.length_append

theorem version_length (ran : PhicommTC1.versionSection value send = .ok sent) : sent.length ≤ send.length + 1 := by
  cases value with
  | none => cases ran; exact Nat.le_succ _
  | some _ => cases ran; exact Nat.le_of_eq List.length_append

theorem version_rule (views : Views part fuel pointer value) (ran : PhicommTC1.versionSection value send = .ok sent)
    (room : send.length ≤ fuel) :
    Triple (answer object send) (OnHeap.versionSection fuel object pointer) fun _ => answer object sent := by
  cases pointer with
  | none =>
    rw [views.none_iff.mp rfl] at ran
    cases ran
    exact Triple.pure fun _ owned => owned
  | some p =>
    cases value with
    | none => cases views.none_iff.mpr rfl
    | some _ => cases ran; exact addString_rule VERSION room

theorem command_rule {root : Nat} {state after : State} {reply : CJson} (views : Views part fuel (some root) (some tree))
    (ran : PhicommTC1.runCommand tree state = .ok (after, reply)) (ten : 10 ≤ fuel) (enough : 2 * items reply ≤ fuel) :
    Triple (exactly part) (OnHeap.runCommand fuel root state)
      fun result => sep (holds (result = (after, CJsonPrinting.printed true 0 reply))) (exactly part) := by
  obtain ⟨versioned, version, ran⟩ := Runs.bind_ok.mp ran
  obtain ⟨work, setting, ran⟩ := Runs.bind_ok.mp ran
  obtain ⟨⟨last, plugged⟩, plugs, ran⟩ := Runs.bind_ok.mp ran
  obtain ⟨name, read, ran⟩ := Runs.bind_ok.mp ran
  obtain ⟨named, added, ran⟩ := Runs.bind_ok.mp ran
  cases added
  cases ran
  have afterVersion := version_length version
  have afterSetting := setting_length setting
  have afterPlugs := loop_length (fun work x after => plug_length x) _ plugs
  rw [List.length_finRange] at afterPlugs
  change work.2.length ≤ versioned.length + 1 at afterSetting
  change plugged.length ≤ work.2.length + 6 at afterPlugs
  have one : (Members.addItem [] (.ofString "mac") (.string state.strMac)).length = 1 := rfl
  rw [one] at afterVersion
  obtain ⟨pVersion, atVersion, viewVersion⟩ := views.get (.ofString "version")
  rw [← sep_emp (exactly part)]
  refine creating fun json => ?_
  rw [sep_emp]
  refine building (addString_rule state.strMac (Nat.zero_le _)) fun _ => ?_
  refine reading atVersion (building (version_rule viewVersion version (by omega)) fun _ => ?_)
  refine Triple.bind (settingSection_rule views setting (by omega) (by omega)) fun stored => ?_
  apply Triple.assuming
  rintro rfl
  refine Triple.bind (loop_rule (fun work x after => plug_length x) (fun work x after step room =>
    plug_rule x views step room (by omega)) _ plugs (by rw [List.length_finRange]; omega)) fun stored => ?_
  apply Triple.assuming
  rintro rfl
  refine lifted read (building (addString_rule name (by change plugged.length ≤ fuel; omega)) fun _ => ?_)
  refine building (sendJson_rule enough) fun text => ?_
  apply Triple.pure
  intro cells owned
  rw [sep_comm] at owned
  obtain ⟨rfl, message⟩ := sep_holds.mp owned
  rw [sep_emp]
  exact sep_holds.mpr ⟨rfl, message⟩

theorem report_rule {state : State} {report : CJson} (ran : PhicommTC1.deviceReport state = .ok report) (ten : 10 ≤ fuel)
    (enough : 2 * items report ≤ fuel) :
    Triple emp (OnHeap.deviceReport fuel state) fun text => holds (text = CJsonPrinting.printed true 0 report) := by
  obtain ⟨name, read, ran⟩ := Runs.bind_ok.mp ran
  cases ran
  refine Triple.bind create_rule fun root => lifted read ?_
  refine Triple.bind (addString_rule name (Nat.zero_le _)) fun _ => ?_
  refine Triple.bind (addString_rule state.strMac (by change 1 ≤ fuel; omega)) fun _ => ?_
  refine Triple.bind (addNumber_rule TYPE (by change 2 ≤ fuel; omega)) fun _ => ?_
  refine Triple.bind (addString_rule TYPE_NAME (by change 3 ≤ fuel; omega)) fun _ => ?_
  refine Triple.bind (addString_rule state.strIp (by change 4 ≤ fuel; omega)) fun _ => ?_
  exact sendJson_rule enough

theorem Views.accepted {root : Nat} (views : Views part fuel (some root) (some tree)) (state : State) :
    Looks part (OnHeap.isAccepted fuel root state) (PhicommTC1.isAccepted tree state) := by
  obtain ⟨pName, atName, name⟩ := views.get (.ofString "name")
  obtain ⟨pMac, atMac, mac⟩ := views.get (.ofString "mac")
  exact atName.bind (atMac.bind (name.string.bind (mac.string.bind Looks.pure)))

/-- The texts of what the handler sends. -/
def texts (sent : List CJson) : List CStr := sent.map (CJsonPrinting.printed true 0)

theorem reportSection_rule {root : Nat} {state : State} {report : Option CJson}
    (views : Views part fuel (some root) (some tree)) (ran : PhicommTC1.reportSection tree state = .ok report)
    (ten : 10 ≤ fuel) (enough : ∀ sent, report = some sent → 2 * items sent ≤ fuel) :
    Triple (exactly part) (OnHeap.reportSection fuel root state)
      fun sent => sep (holds (sent = texts report.toList)) (exactly part) := by
  obtain ⟨pCmd, atCmd, cmd⟩ := views.get (.ofString "cmd")
  rw [← sep_emp (exactly part)]
  refine reading atCmd (reading cmd.string ?_)
  rw [sep_emp]
  change (if isDeviceReport tree then _ else _) = _ at ran
  by_cases asked : isDeviceReport tree = true
  · rw [if_pos asked] at ran
    change Triple _ (if isDeviceReport tree = true then _ else _) _
    rw [if_pos asked]
    obtain ⟨made, built, rfl⟩ : ∃ made, PhicommTC1.deviceReport state = .ok made ∧ report = some made := by
      cases built : PhicommTC1.deviceReport state with
      | error reason => rw [built] at ran; cases ran
      | ok made => rw [built] at ran; cases ran; exact ⟨made, rfl, rfl⟩
    refine Triple.step emp (exactly part) (emp_sep _).symm (report_rule built ten (enough made rfl)) fun text => ?_
    apply Triple.assuming
    rintro rfl
    exact Triple.pure fun _ owned => sep_holds.mpr ⟨rfl, owned⟩
  · rw [if_neg asked] at ran
    change Triple _ (if isDeviceReport tree = true then _ else _) _
    rw [if_neg asked]
    cases ran
    exact Triple.pure fun _ owned => sep_holds.mpr ⟨rfl, owned⟩

/-- What the handler does on trees once the report is made. -/
def answered (tree : CJson) (state : State) (report : Option CJson) : Exec Outcome :=
  if PhicommTC1.isAccepted tree state then do
    let (state, reply) ← PhicommTC1.runCommand tree state
    return ⟨state, report, some reply⟩
  else return ⟨state, report, none⟩

theorem answered_report {state : State} {report : Option CJson} {outcome : Outcome}
    (ran : answered tree state report = .ok outcome) : outcome.report = report := by
  rw [answered] at ran
  split at ran
  · obtain ⟨result, -, ran⟩ := Runs.bind_ok.mp ran
    cases ran
    rfl
  · cases ran
    rfl

theorem commandSection_rule {root : Nat} {state : State} {report : Option CJson} {outcome : Outcome}
    (views : Views part fuel (some root) (some tree)) (ran : answered tree state report = .ok outcome) (ten : 10 ≤ fuel)
    (enough : ∀ sent, outcome.reply = some sent → 2 * items sent ≤ fuel) :
    Triple (exactly part) (OnHeap.commandSection fuel root state)
      fun result => sep (holds (result = (outcome.state, texts outcome.reply.toList))) (exactly part) := by
  rw [← sep_emp (exactly part)]
  refine reading (views.accepted state) ?_
  rw [sep_emp]
  rw [answered] at ran
  split at ran
  next accepted =>
    obtain ⟨⟨after, reply⟩, commanded, ran⟩ := Runs.bind_ok.mp ran
    cases ran
    rw [if_pos accepted]
    refine Triple.bind (command_rule views commanded ten (enough reply rfl)) fun result => ?_
    apply Triple.assuming
    rintro rfl
    exact Triple.pure fun _ owned => sep_holds.mpr ⟨rfl, owned⟩
  next rejected =>
    cases ran
    rw [if_neg rejected]
    exact Triple.pure fun _ owned => sep_holds.mpr ⟨rfl, owned⟩

end Sections

/-- The handler reads one text, and memory is as it was. -/
theorem handler_rule {convert : Numeral → Int32} {fuel : Nat} {pusrdata : CStr} {state : State} {root : Option CJson}
    {outcome : Outcome} (parse : PhicommTC1.cJSONParse convert pusrdata = .ok root)
    (ran : PhicommTC1.userFunctionCmdReceived root state = .ok outcome) (ten : 10 ≤ fuel)
    (long : 2 * pusrdata.length + 1 ≤ fuel) (enough : ∀ sent ∈ outcome.sent, 2 * items sent ≤ fuel) :
    Triple emp (OnHeap.userFunctionCmdReceived fuel convert pusrdata state)
      fun result => holds (result = (outcome.state, texts outcome.sent)) := by
  refine Triple.bind (CJsonParsing.cJSONParse_rule parse long) fun found => ?_
  apply Triple.assuming
  intro small
  cases root with
  | none =>
    cases found with
    | some _ => exact Triple.never
    | none =>
      cases ran
      exact Triple.pure fun _ empty => ⟨rfl, empty⟩
  | some tree =>
    cases found with
    | none => exact Triple.never
    | some root =>
      have keeps (cells : Cells Block) (owned : owns none root (none, tree) none cells) :
          ∃ part, owns none root (none, tree) none part ∧ exactly part cells := ⟨cells, owned, rfl⟩
      apply Triple.opened keeps
      intro part message
      have views : Views part fuel (some root) (some tree) := by
        refine ⟨⟨none, part, none, none, fun _ _ found => found, message⟩, ?_⟩
        intro same inside
        have := small same inside
        omega
      have given (cells : Cells Block) (same : exactly part cells) :
          stretch owns none (some root) [(none, tree)] (some root) none cells := stretch_single (same ▸ message)
      have most : turns [((none : Option CStr), tree)] ≤ fuel := by
        have := small tree rfl
        change items tree ≤ fuel
        omega
      obtain ⟨report, reported, ran⟩ := Runs.bind_ok.mp ran
      have same : outcome.report = report := answered_report ran
      have sent : outcome.sent = report.toList ++ outcome.reply.toList := by rw [Outcome.sent, same]
      have ofReport (made : CJson) (here : report = some made) : 2 * items made ≤ fuel :=
        enough made (by rw [sent, here]; exact List.mem_append_left _ List.mem_cons_self)
      have ofReply (made : CJson) (here : outcome.reply = some made) : 2 * items made ≤ fuel :=
        enough made (by rw [sent, here]; exact List.mem_append_right _ List.mem_cons_self)
      refine Triple.bind (reportSection_rule views reported ten ofReport) fun first => ?_
      apply Triple.assuming
      rintro rfl
      refine Triple.bind (commandSection_rule views ran ten ofReply) fun result => ?_
      apply Triple.assuming
      rintro rfl
      refine Triple.bind ((delete_rule most).given given) fun _ => ?_
      apply Triple.pure
      intro cells empty
      refine ⟨?_, empty⟩
      rw [sent, texts, texts, texts, List.map_append]

/-- The texts that arrive are handled one after another. -/
def serve (fuel : Nat) (convert : Numeral → Int32) : List CStr → State → OnHeap (State × List CStr)
  | [], state => return (state, [])
  | pusrdata :: arriving, state => do
    let (state, sent) ← OnHeap.userFunctionCmdReceived fuel convert pusrdata state
    let (state, more) ← serve fuel convert arriving state
    return (state, sent ++ more)

/-- The same without memory. -/
def serveTrees (convert : Numeral → Int32) : List CStr → State → Exec (State × List CJson)
  | [], state => return (state, [])
  | pusrdata :: arriving, state => do
    let root ← PhicommTC1.cJSONParse convert pusrdata
    let outcome ← PhicommTC1.userFunctionCmdReceived root state
    let (last, more) ← serveTrees convert arriving outcome.state
    return (last, outcome.sent ++ more)

theorem sum_bound {sent : List CJson} {found : CJson} (member : found ∈ sent) : items found ≤ (sent.map items).sum :=
  List.single_le_sum (fun _ _ => Nat.zero_le _) _ (List.mem_map_of_mem member)

theorem serve_rule {convert : Numeral → Int32} {arriving : List CStr} {state : State} {last : State × List CJson}
    (ran : serveTrees convert arriving state = .ok last) : ∃ enough, ∀ fuel, enough ≤ fuel →
      Triple emp (serve fuel convert arriving state) fun result => holds (result = (last.1, texts last.2)) := by
  induction arriving generalizing state last with
  | nil =>
    cases ran
    exact ⟨0, fun fuel _ => Triple.pure fun _ empty => ⟨rfl, empty⟩⟩
  | cons pusrdata arriving ih =>
    obtain ⟨root, parse, ran⟩ := Runs.bind_ok.mp ran
    obtain ⟨outcome, handled, ran⟩ := Runs.bind_ok.mp ran
    obtain ⟨⟨final, more⟩, rest, ran⟩ := Runs.bind_ok.mp ran
    cases ran
    obtain ⟨enough, onward⟩ := ih rest
    refine ⟨enough + 10 + (2 * pusrdata.length + 1) + 2 * (outcome.sent.map items).sum, fun fuel large => ?_⟩
    refine Triple.bind (handler_rule parse handled (by omega) (by omega) fun sent member => ?_) fun result => ?_
    · have := sum_bound member
      omega
    have opens (cells : Cells Block) (owned : holds (result = (outcome.state, texts outcome.sent)) cells) :
        ∃ _ : Unit, result = (outcome.state, texts outcome.sent) ∧ emp cells := ⟨(), owned⟩
    apply Triple.opened opens
    rintro - rfl
    refine Triple.bind (onward fuel (by omega)) fun result => ?_
    have opens (cells : Cells Block) (owned : holds (result = (final, texts more)) cells) :
        ∃ _ : Unit, result = (final, texts more) ∧ emp cells := ⟨(), owned⟩
    apply Triple.opened opens
    rintro - rfl
    apply Triple.pure
    intro cells empty
    refine ⟨?_, empty⟩
    rw [texts, texts, texts, List.map_append]

/-- Whatever texts arrive, as long as the handler is defined on them: in memory it leaves the same state and sends
the same texts, touches no block that is not its own, and none of its own is left. What sending a text allocates is
not counted. -/
theorem commands_leave_memory (convert : Numeral → Int32) (arriving : List CStr) (state last : State) (sent : List CJson)
    (ran : serveTrees convert arriving state = .ok (last, sent)) : ∃ enough, ∀ fuel, enough ≤ fuel →
      ∀ heap : Heap Block, ∃ after, serve fuel convert arriving state heap = .ok ((last, texts sent), after) ∧
        after.cells = heap.cells := by
  obtain ⟨enough, valid⟩ := serve_rule ran
  refine ⟨enough, fun fuel large heap => ?_⟩
  obtain ⟨result, after, done, kept⟩ := valid fuel large (exactly heap.cells) heap (by rw [emp_sep]; rfl)
  obtain ⟨rfl, same⟩ := sep_holds.mp kept
  exact ⟨after, done, same⟩

/-- `{"name":"","plug_0":{"on":1}}` -/
def switchOn : CJson :=
  .object [(.ofString "name", .string (.ofString "")), (plugStr ⟨0, by decide⟩, .object [(.ofString "on", .number 1)])]

def switchMessage : CStr := ⟨CJson.printUnformatted switchOn, by decide +kernel⟩

theorem commands_leave_memory_switch : ∃ last sent enough, ∀ fuel, enough ≤ fuel → ∀ heap : Heap Block, ∃ after,
    serve fuel (fun _ => 0) [switchMessage, switchMessage] exampleBoot heap = .ok ((last, texts sent), after) ∧
      after.cells = heap.cells := by
  have readable : PrintedText.Readable switchOn := by
    simp [switchOn, PrintedText.Readable, PrintedText.ReadableMembers, PrintedText.ReadableMember, PrintedText.Exact]
  have parsed : cJSONParse (fun _ => 0) switchMessage = .ok (some switchOn) :=
    PrintedText.parse_print _ false readable rfl
  have again : ((PhicommTC1.userFunctionCmdReceived (some switchOn) exampleBoot).bind fun first =>
      PhicommTC1.userFunctionCmdReceived (some switchOn) first.state).isOk = true := by decide +kernel
  obtain ⟨⟨last, sent⟩, ran⟩ : ∃ result, serveTrees (fun _ => 0) [switchMessage, switchMessage] exampleBoot =
      .ok result := by
    cases first : PhicommTC1.userFunctionCmdReceived (some switchOn) exampleBoot with
    | error _ => rw [first] at again; cases again
    | ok outcome =>
      rw [first] at again
      cases second : PhicommTC1.userFunctionCmdReceived (some switchOn) outcome.state with
      | error _ => rw [Except.bind, second] at again; cases again
      | ok last => exact ⟨_, by simp only [serveTrees, parsed, first, second, bind, Except.bind]; rfl⟩
  exact ⟨last, sent, commands_leave_memory _ _ _ _ _ ran⟩

end PhicommTC1.Proofs.CommandMemory
