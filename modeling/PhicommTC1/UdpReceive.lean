import PhicommTC1.Foundation.ByteMemory
import PhicommTC1.CJson

/-! The receiving half of `udp_thread`: one buffer, filled by `recvfrom` and handed to the command
handler. What lies around the buffer on the stack is part of the model. -/

namespace PhicommTC1
open CText ByteMemory

/-- `char buf[512]` begins at address 0. -/
def sizeofBuf : Nat := 512

/-- What `recvfrom(udp_fd, buf, 1024, ...)` brings: -1 or a datagram of at most 1024 bytes. -/
inductive Received where
  | failed
  | datagram (bytes : List UInt8) (bound : bytes.length ≤ 1024)

namespace Received

def bytes : Received → List UInt8
  | .failed => []
  | .datagram bytes _ => bytes

/-- The value returned, which is assigned to an `int`. -/
def len : Received → Int
  | .failed => -1
  | .datagram bytes _ => bytes.length

end Received

/-- `store` is a byte stored at an index of `buf`, `execute` a call of `user_function_cmd_received`
on `buf`, with the memory it is called in. -/
inductive BufAction where
  | store (index : Int)
  | execute (memory : Memory)

def storesOf (start : Int) : List UInt8 → List BufAction
  | [] => []
  | _ :: bytes => .store start :: storesOf (start + 1) bytes

/-- `if(len<1024) buf[len]=0` -/
def terminate (len : Int) (memory : Memory) : Memory × List BufAction :=
  if len < 1024 then (write memory len [0], storesOf len [0]) else (memory, [])

/-- One turn of the loop in which `udp_fd` is readable: the memory it leaves and what it did. -/
def udpReceive (received : Received) (memory : Memory) : Memory × List BufAction :=
  let filled := write memory 0 received.bytes
  let (memory, terminator) := terminate received.len filled
  (memory, storesOf 0 received.bytes ++ terminator ++ [.execute memory])

def udpReceiveStep (memory : Memory) (received : Received) : Exec Memory := .ok (udpReceive received memory).1

end PhicommTC1
