import Rgpu.Server.ClientThreads

/-! # What travels on a connection (`common/wire.h`, `common/internal_ids.h`)

A frame is modelled by its header and by the call its payload encodes, with the payload's length. The
calls told apart are those that act on a client thread's state or on the table of client threads;
every other one is `Call.other`, with the id that names it. Before any frame a connection carries one
`Handshake`, and before any reply one `HandshakeReply`. -/

namespace Rgpu

/-- The id of an API call. -/
abbrev ApiId := UInt32

namespace Api

def cuCtxCreate_v2 : ApiId := 20
def cuCtxDestroy_v2 : ApiId := 23
def cuCtxDetach : ApiId := 24
def cuCtxGetApiVersion : ApiId := 28
def cuCtxGetCurrent : ApiId := 30
def cuCtxGetDevResource : ApiId := 31
def cuCtxGetId : ApiId := 35
def cuCtxPopCurrent_v2 : ApiId := 39
def cuCtxPushCurrent_v2 : ApiId := 40
def cuCtxRecordEvent : ApiId := 41
def cuCtxSetCurrent : ApiId := 44
def cuCtxWaitEvent : ApiId := 49
def cuDevicePrimaryCtxRelease_v2 : ApiId := 76
def cuDevicePrimaryCtxRetain : ApiId := 78
def cuGraphAddMemcpyNode : ApiId := 125
def cuGraphAddMemsetNode : ApiId := 126
def cuGraphConditionalHandleCreate : ApiId := 133
def cuGraphExecMemcpyNodeSetParams : ApiId := 152
def cuGraphExecMemsetNodeSetParams : ApiId := 153
def cuMemcpyPeer : ApiId := 318
def cuMemcpyPeerAsync : ApiId := 319
/-- `API__count`: the end of the generated ids. -/
def count : ApiId := 448
/-- `kInternalBase`. -/
def internalBase : ApiId := 0x40000000
/-- `API_rgpu_capture_mode`. -/
def rgpu_capture_mode : ApiId := 0x40000006
/-- `API_rgpu_thread_gone`. -/
def rgpu_thread_gone : ApiId := 0x40000007
/-- `kCublasBase`. -/
def cublasBase : ApiId := 0x50000000

end Api

/-- The call a request encodes. `out` says whether the client passed a pointer for the handle that
comes back. -/
inductive Call
  | ctxSetCurrent (ctx : CUcontext)
  | ctxPushCurrent (ctx : CUcontext)
  | ctxPopCurrent (out : Bool)
  | ctxGetCurrent (out : Bool)
  | ctxCreate (out : Bool)
  | ctxDestroy (ctx : CUcontext)
  | ctxDetach (ctx : CUcontext)
  /-- `rgpu_capture_mode`: `cuThreadExchangeStreamCaptureMode`. -/
  | captureMode (mode : CaptureMode)
  /-- `rgpu_thread_gone`: client threads that have exited. -/
  | threadGone (ids : List ThreadId)
  | other (api : ApiId)
  deriving DecidableEq, Repr

/-- The id a call travels under. -/
def Call.api : Call → ApiId
  | .ctxSetCurrent _ => Api.cuCtxSetCurrent
  | .ctxPushCurrent _ => Api.cuCtxPushCurrent_v2
  | .ctxPopCurrent _ => Api.cuCtxPopCurrent_v2
  | .ctxGetCurrent _ => Api.cuCtxGetCurrent
  | .ctxCreate _ => Api.cuCtxCreate_v2
  | .ctxDestroy _ => Api.cuCtxDestroy_v2
  | .ctxDetach _ => Api.cuCtxDetach
  | .captureMode _ => Api.rgpu_capture_mode
  | .threadGone _ => Api.rgpu_thread_gone
  | .other api => api

/-- Whether the server knows the call, given whether it knows the ones not told apart. -/
def Call.handled (known : Bool) : Call → Bool
  | .other _ => known
  | _ => true

/-- A request frame. -/
structure Frame where
  /-- `ReqHeader::req_id`. -/
  reqId : RequestId
  /-- `ReqHeader::flags & kFlagNoReply`: the server must not send a response. -/
  noReply : Bool
  /-- `ReqHeader::thread_id`. -/
  threadId : ThreadId
  /-- `ReqHeader::api_id` and the payload. -/
  call : Call
  /-- `ReqHeader::payload_len`. -/
  payloadLen : ℕ
  deriving DecidableEq, Repr

/-- The position of a frame among those its client queued. -/
abbrev Frame.pos (f : Frame) : ℕ := f.reqId.pos

/-- `sizeof(ReqHeader)` and the payload. -/
def Frame.size (f : Frame) : ℕ := 24 + f.payloadLen

/-- What a reply carries beside its result. -/
inductive Payload
  | empty
  | context (ctx : CUcontext)
  | captureMode (mode : CaptureMode)
  | bytes (data : List UInt8)
  deriving DecidableEq, Repr

/-- A reply frame. -/
structure Reply where
  /-- `RspHeader::req_id`. -/
  reqId : RequestId
  /-- `RspHeader::result`. -/
  result : CUresult
  /-- The payload. -/
  payload : Payload
  deriving DecidableEq, Repr

/-- Whether a held deferred error must not be folded into this call's reply
(`reply_carries_observed_state`). -/
def replyCarriesObservedState (api : ApiId) : Bool :=
  api = Api.rgpu_capture_mode ∨ api = Api.cuCtxSetCurrent ∨ api = Api.cuCtxPushCurrent_v2 ∨
    api = Api.cuCtxPopCurrent_v2

/-- A connection, by the order in which connections are made. Descriptor numbers are handed out again,
so a connection is not told by its number. -/
abbrev ConnId := ℕ

/-- `kProtocolVersion`. -/
def kProtocolVersion : UInt32 := 3

/-- The id of a client process. -/
structure SessionKey where
  /-- `session_hi`. -/
  hi : UInt64
  /-- `session_lo`. -/
  lo : UInt64
  deriving DecidableEq

/-- Which session object of the server: how many it had made before. -/
abbrev SessionId := ℕ

/-- What a client says first on a connection. -/
structure Handshake where
  /-- `version`. -/
  version : UInt32 := kProtocolVersion
  /-- Whose session it is about. -/
  session : SessionKey
  /-- `last_req_id`: the last reply received, or given up waiting for. -/
  lastReq : RequestId
  /-- `flags & kHelloResuming`: the client has had a session under this id. -/
  resuming : Bool
  deriving DecidableEq

/-- A client starting afresh: it names no reply and does not say it is resuming. -/
def Handshake.starting (hello : Handshake) : Bool := hello.lastReq.id = 0 ∧ hello.resuming = false

/-- What the server answers it with. -/
structure HandshakeReply where
  /-- The magic number is `kMagicBusy`, not `kMagicHello`. -/
  busy : Bool := false
  /-- `version`. -/
  version : UInt32 := kProtocolVersion
  /-- `resumed`: this attached to a session that already existed. -/
  resumed : Bool := false
  /-- `last_req_id`: the last request that session completed. -/
  lastReq : RequestId := .none
  /-- The session the reply is about. It is not on the wire and nothing reads it. -/
  session : Option SessionId := none
  deriving DecidableEq

/-- What the server writes to a connection. -/
inductive Message
  | handshake (reply : HandshakeReply)
  | reply (reply : Reply)
  deriving DecidableEq

end Rgpu
