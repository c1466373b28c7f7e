import PhicommTC1.Device
import PhicommTC1.UserUdp

/-! What becomes of outgoing messages. A new queue takes the place of the one `udp_thread` polls,
and whatever that one still holds is never received. -/

namespace PhicommTC1.Proofs.OutgoingMessages
open CText PhicommTC1 MessageQueue
variable {udp next : Udp} {event : UdpEvent}

/-- Every message that was sent has been handed on or waits in the polled queue, once, and messages
are handed on in the order in which they were sent. -/
structure Kept (udp : Udp) : Prop where
  accounted : ∀ message ∈ udp.sent, message ∈ udp.handed ∨ message ∈ udp.polled
  once : (udp.handed ++ udp.polled).Nodup
  inOrder : udp.handed.Sublist udp.sent

/-- A call replaces the polled queue only when nothing waits in it. -/
def Drained (udp : Udp) (event : UdpEvent) : Prop := ∀ context arg, event = .create context arg → udp.polled = []

/-- The messages sent are those handed on followed by those that wait, numbered from zero. -/
structure Exact (udp : Udp) : Prop where
  sent : udp.sent = udp.handed ++ udp.polled
  distinct : udp.sent.Nodup
  serials : ∀ message ∈ udp.sent, message.serial < udp.sent.length

theorem Exact.kept (exact : Exact udp) : Kept udp where
  accounted message member := by rwa [exact.sent, List.mem_append] at member
  once := exact.sent ▸ exact.distinct
  inOrder := by rw [exact.sent]; exact List.sublist_append_left _ _

theorem polled_createQueue (udp : Udp) : udp.createQueue.polled = [] := by
  simp only [Udp.createQueue, Udp.polled, Option.map_some, Option.getD_some, Table.create_queue, Fifo.items_create]

theorem createQueue_exact (exact : Exact udp) (drained : udp.polled = []) : Exact udp.createQueue where
  sent := by
    rw [polled_createQueue, ← drained]
    exact exact.sent
  distinct := exact.distinct
  serials := exact.serials

theorem createQueue_kept_iff (exact : Exact udp) : Kept udp.createQueue ↔ udp.polled = [] := by
  constructor
  · intro kept
    apply List.eq_nil_iff_forall_not_mem.mpr
    intro message waiting
    -- A message that waits in the old queue can only be accounted for by having been handed on before.
    have member : message ∈ udp.sent := by rw [exact.sent]; exact List.mem_append_right _ waiting
    have handed : message ∈ udp.handed := by
      apply (kept.accounted message member).resolve_right
      rw [polled_createQueue]
      exact List.not_mem_nil
    exact (List.nodup_append.mp exact.kept.once).2.2 message handed message waiting rfl
  · intro drained
    exact (createQueue_exact exact drained).kept

theorem hfmsgqSend_exact (exact : Exact udp) (text : CJson) : Exact (udp.hfmsgqSend text) := by
  unfold Udp.hfmsgqSend
  split
  next => exact exact
  next handle found =>
    dsimp only
    split
    next queue success =>
      have fresh : (⟨udp.sent.length, text⟩ : Message) ∉ udp.sent := by
        intro member
        exact Nat.lt_irrefl _ (exact.serials _ member)
      refine ⟨?_, ?_, ?_⟩
      · simp only [Udp.polled, found, Option.map_some, Option.getD_some, Table.set_queue, Fifo.send_items success,
          exact.sent, List.append_assoc]
      · refine List.nodup_append.mpr ⟨exact.distinct, by simp, ?_⟩
        intro first member last newest same
        rw [List.mem_singleton.mp newest] at same
        exact fresh (same ▸ member)
      · intro message member
        rw [List.length_append, List.length_singleton]
        rcases List.mem_append.mp member with earlier | newest
        · have bound := exact.serials message earlier
          omega
        · rw [List.mem_singleton.mp newest]
          exact Nat.lt_succ_self _
    next => exact exact

theorem hfmsgqRecv_exact (exact : Exact udp) : Exact udp.hfmsgqRecv := by
  unfold Udp.hfmsgqRecv
  split
  next => exact exact
  next handle found =>
    split
    next message queue success =>
      have waiting : udp.polled = message :: queue.items := by
        simp only [Udp.polled, found, Option.map_some, Option.getD_some, Fifo.recv_items success]
      have after : Udp.polled { udp with
          queues := udp.queues.set handle queue
          handed := udp.handed ++ [message] } = queue.items := by
        simp only [Udp.polled, found, Option.map_some, Option.getD_some, Table.set_queue]
      refine ⟨?_, exact.distinct, exact.serials⟩
      rw [after, exact.sent, waiting, List.append_assoc, List.singleton_append]
    next => exact exact

theorem exact_inCall (exact : Exact udp) (inCall : Context → Option CJson) : Exact { udp with inCall := inCall } :=
  ⟨exact.sent, exact.distinct, exact.serials⟩

theorem kept_inCall (inCall : Context → Option CJson) : Kept { udp with inCall := inCall } ↔ Kept udp :=
  ⟨fun kept => ⟨kept.accounted, kept.once, kept.inOrder⟩, fun kept => ⟨kept.accounted, kept.once, kept.inOrder⟩⟩

theorem step_kept_iff (exact : Exact udp) (stepped : udp.step event = .ok next) :
    (Kept next ↔ Drained udp event) ∧ (Kept next → Exact next) := by
  have always {next : Udp} (event : UdpEvent) (other : ∀ context arg, event ≠ .create context arg)
      (after : Exact next) : (Kept next ↔ Drained udp event) ∧ (Kept next → Exact next) := by
    refine ⟨⟨?_, fun _ => after.kept⟩, fun _ => after⟩
    intro kept context arg created
    exact absurd created (other context arg)
  cases event with
  | create context arg =>
    simp only [Udp.step] at stepped
    split at stepped
    next =>
      cases stepped
      have drained : Drained udp (.create context arg) ↔ udp.polled = [] :=
        ⟨fun drained => drained context arg rfl, fun empty _ _ _ => empty⟩
      rw [kept_inCall, createQueue_kept_iff exact, drained]
      refine ⟨Iff.rfl, ?_⟩
      intro empty
      exact exact_inCall (createQueue_exact exact empty) _
    next => cases stepped
  | send context =>
    simp only [Udp.step] at stepped
    split at stepped
    next text calling =>
      cases stepped
      exact always (.send context) nofun
        (exact_inCall (hfmsgqSend_exact exact text) (Function.update udp.inCall context none))
    next => cases stepped
  | receive =>
    simp only [Udp.step] at stepped
    split at stepped
    next =>
      cases stepped
      exact always .receive nofun (hfmsgqRecv_exact exact)
    next => cases stepped

theorem initial_exact : Exact .initial := ⟨rfl, List.nodup_nil, fun _ => nofun⟩

/-- Whatever order the contexts and the receiving thread come in, no message is lost, duplicated or
reordered exactly in the runs in which a queue is replaced only when nothing waits in it. -/
theorem messages_kept_iff {events : List UdpEvent} {last : Udp}
    (completed : Runs.run Udp.step .initial events = .ok last) :
    Runs.Along Udp.step Kept .initial events ↔ Runs.Meets Udp.step Drained .initial events := by
  -- Exactness is an invariant only as long as nothing has been lost.
  apply Runs.along_iff_meets (fun udp => Kept udp → Exact udp) completed
  · intro kept
    exact initial_exact
  · exact initial_exact.kept
  · intro current event next valid kept member stepped
    exact (step_kept_iff (valid kept) stepped).2
  · intro current event next valid kept member stepped
    exact (step_kept_iff (valid kept) stepped).1

/-- Two texts sent in one go, as the handler does for a report and a reply: the second call
replaces the queue in which the first text waits. -/
theorem two_texts_run (first second : CJson) : ∃ last,
    Runs.run Udp.step .initial (userSends .udpThread [first, second]) = .ok last ∧
      last.sent = [⟨0, first⟩, ⟨1, second⟩] ∧ last.handed = [] ∧ last.polled = [⟨1, second⟩] :=
  ⟨_, rfl, rfl, rfl, rfl⟩

theorem two_texts_lose_one {first second : CJson} {last : Udp}
    (ran : Runs.run Udp.step .initial (userSends .udpThread [first, second]) = .ok last) : ¬ Kept last := by
  obtain ⟨other, again, sent, handed, polled⟩ := two_texts_run first second
  cases ran.symm.trans again
  intro kept
  have lost := kept.accounted ⟨0, first⟩ (by simp [sent])
  simp [handed, polled] at lost

theorem messages_kept_iff_two :
    Runs.Along Udp.step Kept .initial (userSends .udpThread [.jsonNull, .jsonNull]) ↔
      Runs.Meets Udp.step Drained .initial (userSends .udpThread [.jsonNull, .jsonNull]) := by
  obtain ⟨last, completed, -⟩ := two_texts_run .jsonNull .jsonNull
  exact messages_kept_iff completed

def reportRequest : CJson :=
  .object [(.ofString "cmd", .string (.ofString "device report")), (.ofString "mac", .string exampleMac)]

/-- The report that the handler queues is lost to the reply that it queues next. -/
theorem report_lost_to_reply : ∃ outcome last, userFunctionCmdReceived (some reportRequest) exampleBoot = .ok outcome ∧
    Runs.run Udp.step .initial (userSends .udpThread outcome.sent) = .ok last ∧ ¬ Kept last := by
  obtain ⟨⟨state, report, reply⟩, ran, both⟩ : ∃ outcome,
      userFunctionCmdReceived (some reportRequest) exampleBoot = .ok outcome ∧
      (outcome.report.isSome, outcome.reply.isSome) = (true, true) := Runs.map_ok.mp (by decide +kernel)
  simp only [Prod.mk.injEq, Option.isSome_iff_exists] at both
  obtain ⟨⟨first, rfl⟩, second, rfl⟩ := both
  obtain ⟨last, sends, -⟩ := two_texts_run first second
  exact ⟨_, last, ran, sends, two_texts_lose_one sends⟩

end PhicommTC1.Proofs.OutgoingMessages
