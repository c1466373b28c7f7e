import PhicommTC1.Foundation.Runs
import PhicommTC1.UdpReceive

/-! What the command handler is given. A datagram that leaves room for the terminator is executed as
it is; one that does not, and a failed receive, store outside the buffer. -/

namespace PhicommTC1.Proofs.ReceivedCommands
open CText ByteMemory PhicommTC1
variable {received : Received} {memory : Memory} {outcomes : List Received}

/-- Every store stays inside `buf`, and what is executed is the datagram just received. -/
structure Faithful (received : Received) (actions : List BufAction) : Prop where
  inside : ∀ index, .store index ∈ actions → 0 ≤ index ∧ index < sizeofBuf
  executed : ∀ memory, .execute memory ∈ actions →
    ∃ bytes bound, received = .datagram bytes bound ∧ HoldsText memory 0 (.upToNul bytes)

theorem store_mem {start index : Int} {bytes : List UInt8} :
    .store index ∈ storesOf start bytes ↔ start ≤ index ∧ index < start + bytes.length := by
  induction bytes generalizing start with
  | nil => simp only [storesOf, List.not_mem_nil, List.length_nil, false_iff]; omega
  | cons byte bytes ih =>
    simp only [storesOf, List.mem_cons, BufAction.store.injEq, ih, List.length_cons]
    omega

theorem execute_not_mem {start : Int} {bytes : List UInt8} : .execute memory ∉ storesOf start bytes := by
  induction bytes generalizing start with
  | nil => exact List.not_mem_nil
  | cons byte bytes ih => simp [storesOf, ih]

theorem short_faithful {bytes : List UInt8} (bound : bytes.length ≤ 1024) (short : bytes.length ≤ 511) :
    Faithful (.datagram bytes bound) (udpReceive (.datagram bytes bound) memory).2 := by
  have terminated : terminate bytes.length (write memory 0 bytes) =
      (write memory 0 (bytes ++ [0]), storesOf bytes.length [0]) := by
    rw [terminate, if_pos (by omega), write_append, Int.zero_add]
  simp only [udpReceive, Received.bytes, Received.len, terminated]
  constructor
  · intro index stored
    simp only [List.mem_append, List.mem_singleton, reduceCtorEq, or_false, store_mem, List.length_singleton,
      sizeofBuf] at stored ⊢
    omega
  · intro called executed
    simp only [List.mem_append, execute_not_mem, false_or, List.mem_singleton, BufAction.execute.injEq] at executed
    subst executed
    exact ⟨bytes, bound, rfl, write_text⟩

theorem faithful_short (faithful : Faithful received (udpReceive received memory).2) :
    ∃ bytes bound, received = .datagram bytes bound ∧ bytes.length ≤ 511 := by
  obtain ⟨bytes, bound, rfl, -⟩ := faithful.executed _ (List.mem_append_right _ (List.mem_singleton.mpr rfl))
  refine ⟨bytes, bound, rfl, ?_⟩
  by_contra long
  suffices stored : .store 512 ∈ (udpReceive (.datagram bytes bound) memory).2 by
    have inside := (faithful.inside 512 stored).2
    simp [sizeofBuf] at inside
  simp only [udpReceive, Received.bytes, Received.len, List.mem_append, store_mem]
  by_cases exactly : bytes.length = 512
  · rw [terminate, if_pos (by omega)]
    exact .inl (.inr (store_mem.mpr (by simp only [List.length_singleton]; omega)))
  · exact .inl (.inl (by omega))

/-- Over any sequence of receives every executed command is exactly the datagram just received, and
every store stays inside the buffer, exactly when each receive brings a datagram of at most 511 bytes. -/
theorem commands_are_datagrams_iff (memory : Memory) (outcomes : List Received) :
    Runs.Meets udpReceiveStep (fun memory received => Faithful received (udpReceive received memory).2) memory
        outcomes ↔
      ∀ received ∈ outcomes, ∃ bytes bound, received = .datagram bytes bound ∧ bytes.length ≤ 511 := by
  constructor
  · intro faithful received member
    obtain ⟨first, rest, split⟩ := List.append_of_mem member
    obtain ⟨middle, reached, -⟩ : ∃ middle, Runs.run udpReceiveStep memory first = .ok middle ∧ True :=
      Runs.completes (fun _ => True) trivial fun _ _ _ _ => ⟨_, rfl, trivial⟩
    exact faithful_short (Runs.meets_iff.mp faithful first received rest middle split reached)
  · intro short
    apply Runs.Meets.of_events
    intro current received member
    obtain ⟨bytes, bound, rfl, fits⟩ := short received member
    exact short_faithful bound fits

/-- `{"cmd":"device report"}` as a datagram. -/
def deviceReportDatagram : Received :=
  .datagram (CStr.ofString "\x7b\"cmd\":\"device report\"\x7d").bytes (by decide)

/-- A failed receive stores in front of the buffer and executes what the last datagram left in it. -/
theorem failed_receive_executes_again :
    ¬ ∀ (memory : Memory) (outcomes : List Received),
      Runs.Meets udpReceiveStep (fun memory received => Faithful received (udpReceive received memory).2) memory
        outcomes := by
  intro assumed
  have faithful := assumed (fun _ => 0) [deviceReportDatagram, .failed]
  have again := Runs.meets_iff.mp faithful [deviceReportDatagram] .failed [] _ rfl rfl
  obtain ⟨bytes, bound, same, -⟩ := faithful_short again
  cases same

end PhicommTC1.Proofs.ReceivedCommands
