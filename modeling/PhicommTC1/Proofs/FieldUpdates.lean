import PhicommTC1.Proofs.DeviceSteps

/-! Command messages update the settings field by field and the last writer wins. -/

namespace PhicommTC1.Proofs.FieldUpdates
open CText LastWriter PhicommTC1 CommandWrites CommandEffect CommandDefined DeviceSteps
variable {state last : State} {messages : List CJson}

def writes (state : State) (message : CJson) (register : Register) : Option register.Value :=
  if isAccepted message state then Request.value message register else none

def commands (messages : List CJson) : List Event := messages.map fun message => .command (some message)

/-- The messages are served, every register ends with its last writer's value, and nothing else changes. -/
def FollowsLastWriter (state : State) (messages : List CJson) : Prop :=
  ∃ last, Runs.run step state (commands messages) = .ok last ∧
    (∀ register, last.registers register =
      (LastWriter.last (writes state) messages register).getD (state.registers register)) ∧
    last.kept = state.kept

theorem writes_congr {other : State} (same : other.strMac = state.strMac) : writes other = writes state := by
  funext message register
  simp only [writes, isAccepted_congr same]

theorem message_delivered {message : CJson} (plain : Request.Plain message)
    (stepped : step state (.command (some message)) = .ok last) :
    last.registers = deliver (writes state) state.registers message ∧ last.kept = state.kept := by
  cases StoreRules.step_cases stepped with
  | command accepted commanded =>
    obtain ⟨registers, kept⟩ := runCommand_registers plain.fits commanded
    refine ⟨?_, kept⟩
    funext register
    simp only [registers, deliver, writes, if_pos accepted, plain.printed_eq]
  | ignored unasked event same =>
    have refused : ¬ isAccepted message state = true := by simpa [Event.request] using unasked
    rw [same]
    refine ⟨?_, rfl⟩
    funext register
    simp only [deliver, writes, if_neg refused, Option.getD_none]

theorem message_served_iff {message : CJson} (sound : Sound state) (plain : Request.Plain message) :
    (∃ next, step state (.command (some message)) = .ok next) ↔
      (isAccepted message state = true → ¬ Request.OtaUnreadable message) := by
  rw [← not_and, ← command_defined_iff sound plain]
  constructor
  · intro served
    obtain ⟨next, stepped⟩ := served
    obtain ⟨outcome, ran, -⟩ := Runs.bind_ok.mp stepped
    exact ⟨outcome, ran⟩
  · intro defined
    obtain ⟨outcome, ran⟩ := defined
    exact ⟨outcome.state, Runs.bind_ok.mpr ⟨outcome, ran, rfl⟩⟩

theorem messages_delivered (plain : ∀ message ∈ messages, Request.Plain message)
    (ran : Runs.run step state (commands messages) = .ok last) :
    last.registers = messages.foldl (deliver (writes state)) state.registers ∧ last.kept = state.kept := by
  induction messages generalizing state with
  | nil => cases ran; exact ⟨rfl, rfl⟩
  | cons message messages ih =>
    obtain ⟨next, stepped, ran⟩ := Runs.run_cons.mp ran
    obtain ⟨registers, kept⟩ := message_delivered (plain message (by simp)) stepped
    obtain ⟨rest, keptRest⟩ := ih (fun other member => plain other (by simp [member])) ran
    refine ⟨?_, keptRest.trans kept⟩
    rw [List.foldl_cons, ← registers, rest, writes_congr (congrArg Kept.strMac kept)]

theorem messages_served_iff (sound : Sound state) (plain : ∀ message ∈ messages, Request.Plain message) :
    (∃ last, Runs.run step state (commands messages) = .ok last) ↔
      ∀ message ∈ messages, isAccepted message state = true → ¬ Request.OtaUnreadable message := by
  induction messages generalizing state with
  | nil => simp [commands, Runs.run]
  | cons message messages ih =>
    obtain ⟨plainHere, plainRest⟩ := List.forall_mem_cons.mp plain
    rw [List.forall_mem_cons, ← message_served_iff sound plainHere]
    have rest {next : State} (stepped : step state (.command (some message)) = .ok next) :
        (∃ last, Runs.run step next (commands messages) = .ok last) ↔
          ∀ other ∈ messages, isAccepted other state = true → ¬ Request.OtaUnreadable other := by
      have sameMac := congrArg Kept.strMac (message_delivered plainHere stepped).2
      rw [ih (soundStores.step sound stepped) plainRest]
      simp only [isAccepted_congr sameMac]
    constructor
    · intro completed
      obtain ⟨last, ran⟩ := completed
      obtain ⟨next, stepped, ran⟩ := Runs.run_cons.mp ran
      exact ⟨⟨next, stepped⟩, (rest stepped).mp ⟨last, ran⟩⟩
    · intro both
      obtain ⟨⟨next, stepped⟩, served⟩ := both
      obtain ⟨last, ran⟩ := (rest stepped).mpr served
      exact ⟨last, Runs.run_cons.mpr ⟨next, stepped, ran⟩⟩

/-- From every reachable state, plain messages are field-wise last-writer-wins exactly when no
accepted one carries a `setting.ota` that is not a string. -/
theorem fields_follow_last_writer_iff {strMac strIp : CStr} {past : List Event}
    (reached : Runs.run step (boot strMac strIp) past = .ok state)
    (plain : ∀ message ∈ messages, Request.Plain message) :
    FollowsLastWriter state messages ↔
      ∀ message ∈ messages, isAccepted message state = true → ¬ Request.OtaUnreadable message := by
  rw [← messages_served_iff (run_sound reached) plain]
  constructor
  · intro follows
    obtain ⟨last, ran, -⟩ := follows
    exact ⟨last, ran⟩
  · intro served
    obtain ⟨last, ran⟩ := served
    obtain ⟨registers, kept⟩ := messages_delivered plain ran
    refine ⟨last, ran, ?_, kept⟩
    intro register
    rw [registers, foldl_deliver]

def otaNumber : CJson :=
  .object [(.ofString "mac", .string exampleMac), (.ofString "setting", .object [(.ofString "ota", .number 0)]),
    (.ofString "plug_0", .object [(.ofString "on", .number 1)])]

theorem otaNumber_plain : ∀ message ∈ [otaNumber], Request.Plain message := by
  have text (field : TextField) : Request.text otaNumber field = none := by
    cases field with
    | plugName x => revert x; decide
    | _ => decide
  have deviceid : Request.deviceid otaNumber = none := by decide
  intro message member
  rw [List.mem_singleton.mp member]
  constructor
  · intro field format asked
    rw [text] at asked
    cases asked
  · intro format asked
    rw [deviceid] at asked
    cases asked

theorem otaNumber_follows_iff : FollowsLastWriter exampleBoot [otaNumber] ↔
    ∀ message ∈ [otaNumber], isAccepted message exampleBoot = true → ¬ Request.OtaUnreadable message := by
  have booted : Runs.run step exampleBoot [] = .ok exampleBoot := rfl
  exact fields_follow_last_writer_iff booted otaNumber_plain

/-- The handler passes a NULL string on before it reaches the plugs. -/
theorem otaNumber_breaks_last_writer :
    ¬ ∀ (strMac strIp : CStr) (past : List Event) (state : State) (messages : List CJson),
      Runs.run step (boot strMac strIp) past = .ok state → (∀ message ∈ messages, Request.Plain message) →
      FollowsLastWriter state messages := by
  intro assumed
  obtain ⟨last, ran, -⟩ := assumed _ _ [] exampleBoot [otaNumber] rfl otaNumber_plain
  have served := (messages_served_iff (boot_sound _ _) otaNumber_plain).mp ⟨last, ran⟩ otaNumber (by simp) (by decide)
  exact served ⟨.number 0, rfl, rfl⟩

end PhicommTC1.Proofs.FieldUpdates
