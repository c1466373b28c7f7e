import PhicommTC1.CJsonText
import PhicommTC1.Foundation.MessageQueue
import PhicommTC1.UserFunction

/-! The outgoing messages. Three contexts send, one thread receives, and all of them go through one
global queue handle. A context can be interrupted between the two statements of `user_udp_send`
that use the handle. -/

namespace PhicommTC1
open MessageQueue

/-- Where `user_udp_send` is called from: the command handler in its thread, the scheduler's
report, and the button's timer. -/
inductive Context where
  | udpThread
  | rtcThread
  | keyTimer
  deriving DecidableEq

structure Message where
  serial : Nat
  text : CJson

/-- `inCall` is the text of a call that has created its queue and not sent yet. `sent` and `handed`
record the messages that `hfmsgq_send` took and that were passed to `udp_msg_send`. -/
structure Udp where
  queues : Table Message 2
  udpMsgq : Option Nat
  inCall : Context → Option CJson
  sent : List Message
  handed : List Message

inductive UdpEvent where
  /-- `user_udp_send(arg)` up to `udp_msgq = hfmsgq_create(2, 256)` -/
  | create (context : Context) (arg : CJson)
  /-- the rest of the call: `hfmsgq_send(udp_msgq, &p_send_msg, 10, 0)` -/
  | send (context : Context)
  /-- `hfmsgq_recv(udp_msgq, &msg, 10, 0)` in the loop of `udp_thread` -/
  | receive

/-- The context is not at the statement the event is about. -/
inductive NotThere where
  | notThere

namespace Udp

def initial : Udp := ⟨.empty, none, fun _ => none, [], []⟩

def polled (udp : Udp) : List Message := (udp.udpMsgq.map fun handle => (udp.queues.queue handle).items).getD []

def createQueue (udp : Udp) : Udp :=
  let (handle, queues) := udp.queues.create
  { udp with queues := queues, udpMsgq := some handle }

/-- A failed `hfmsgq_send` only prints a line. -/
def hfmsgqSend (text : CJson) (udp : Udp) : Udp :=
  match udp.udpMsgq with
  | none => udp
  | some handle =>
    let message : Message := ⟨udp.sent.length, text⟩
    match (udp.queues.queue handle).send message with
    | some queue => { udp with queues := udp.queues.set handle queue, sent := udp.sent ++ [message] }
    | none => udp

def hfmsgqRecv (udp : Udp) : Udp :=
  match udp.udpMsgq with
  | none => udp
  | some handle =>
    match (udp.queues.queue handle).recv with
    | some (message, queue) =>
      { udp with queues := udp.queues.set handle queue, handed := udp.handed ++ [message] }
    | none => udp

def step (udp : Udp) : UdpEvent → Except NotThere Udp
  | .create context arg =>
    match udp.inCall context with
    | none => .ok { udp.createQueue with inCall := Function.update udp.inCall context (some arg) }
    | some _ => .error .notThere
  | .send context =>
    match udp.inCall context with
    | some text => .ok { udp.hfmsgqSend text with inCall := Function.update udp.inCall context none }
    | none => .error .notThere
  | .receive =>
    match udp.inCall .udpThread with
    | none => .ok udp.hfmsgqRecv
    | some _ => .error .notThere

end Udp

def MAX_UDP_DATA_SIZE : Nat := 1024

/-- `memcpy(p_send_msg->data, arg, strlen(arg))` of a printed text stays inside `data`. -/
def fitsData (arg : CJson) : Prop := (CJson.print arg).length ≤ MAX_UDP_DATA_SIZE

def userSends (context : Context) (texts : List CJson) : List UdpEvent :=
  texts.flatMap fun text => [.create context text, .send context]

end PhicommTC1
