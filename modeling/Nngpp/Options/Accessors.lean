import Nngpp.Options.Members

/-!
The dedicated accessors of the core headers.

Each of the free functions `get_opt_*` and `set_opt_*` for `nng::option` is one
call of one typed member with the name of one option: `s.get_opt_int(
to_name(option::ttl_max) )`. What can go wrong in such a function is the pairing
of the member with the option, so an accessor is kept as that pairing. The type
of the parameter of a setter is the type of its member.
-/

namespace Nngpp.Options

/-- `return s.get_opt_<type>( to_name(option) );` for a view of the given kind. -/
structure Getter where
  kind : Kind
  option : Opt
  type : OptionType
  deriving DecidableEq, Repr

/-- `s.set_opt_<type>( to_name(option), v );` for a view of the given kind. -/
structure Setter where
  kind : Kind
  option : Opt
  type : OptionType
  deriving DecidableEq, Repr

variable {text : Macro → String} {Addr : Type}

def Getter.object (g : Getter) (id : ℕ) : Object := ⟨g.kind, id⟩

def Setter.object (s : Setter) (id : ℕ) : Object := ⟨s.kind, id⟩

def Getter.call (g : Getter) (id : ℕ) : Call text Addr (Ret Addr) :=
  getOpt g.type (g.object id) (toName text g.option)

def Setter.call (s : Setter) (id : ℕ) (v : Value Addr) (refusal : Option Refusal) :
    Call text Addr Unit :=
  setOpt (s.object id) (toName text s.option) v refusal

/-! ### `socket_view.h` -/

namespace Socket

def getOptSocketName : Getter := ⟨.socket, .socketName, .string⟩
def getOptRaw : Getter := ⟨.socket, .raw, .bool_⟩
def getOptProtocol : Getter := ⟨.socket, .protocol, .int_⟩
def getOptProtocolName : Getter := ⟨.socket, .protocolName, .string⟩
def getOptPeer : Getter := ⟨.socket, .peer, .int_⟩
def getOptPeerName : Getter := ⟨.socket, .peerName, .string⟩
def getOptRecvBuffer : Getter := ⟨.socket, .recvBuffer, .int_⟩
def getOptSendBuffer : Getter := ⟨.socket, .sendBuffer, .int_⟩
def getOptRecvFd : Getter := ⟨.socket, .recvFd, .int_⟩
def getOptSendFd : Getter := ⟨.socket, .sendFd, .int_⟩
def getOptRecvTimeout : Getter := ⟨.socket, .recvTimeout, .ms⟩
def getOptSendTimeout : Getter := ⟨.socket, .sendTimeout, .ms⟩
def getOptTtlMax : Getter := ⟨.socket, .ttlMax, .int_⟩
/-- Reads the size through `get_opt_string`. -/
def getOptRecvSizeMax : Getter := ⟨.socket, .recvSizeMax, .string⟩
def getOptReconnectTimeMin : Getter := ⟨.socket, .reconnectTimeMin, .ms⟩
def getOptReconnectTimeMax : Getter := ⟨.socket, .reconnectTimeMax, .ms⟩

def setOptSocketName : Setter := ⟨.socket, .socketName, .string⟩
def setOptRecvBuffer : Setter := ⟨.socket, .recvBuffer, .int_⟩
def setOptSendBuffer : Setter := ⟨.socket, .sendBuffer, .int_⟩
def setOptRecvTimeout : Setter := ⟨.socket, .recvTimeout, .ms⟩
def setOptSendTimeout : Setter := ⟨.socket, .sendTimeout, .ms⟩
def setOptTtlMax : Setter := ⟨.socket, .ttlMax, .int_⟩
def setOptReconnectTimeMin : Setter := ⟨.socket, .reconnectTimeMin, .ms⟩
def setOptReconnectTimeMax : Setter := ⟨.socket, .reconnectTimeMax, .ms⟩

end Socket

/-! ### `ctx_view.h` -/

namespace Ctx

def getOptRecvTimeout : Getter := ⟨.ctx, .recvTimeout, .ms⟩
def getOptSendTimeout : Getter := ⟨.ctx, .sendTimeout, .ms⟩

def setOptRecvTimeout : Setter := ⟨.ctx, .recvTimeout, .ms⟩
def setOptSendTimeout : Setter := ⟨.ctx, .sendTimeout, .ms⟩

end Ctx

/-! ### `dialer_view.h` -/

namespace Dialer

def getOptUrl : Getter := ⟨.dialer, .url, .string⟩
def getOptRecvSizeMax : Getter := ⟨.dialer, .recvSizeMax, .size⟩
def getOptReconnectTimeMin : Getter := ⟨.dialer, .reconnectTimeMin, .ms⟩
def getOptReconnectTimeMax : Getter := ⟨.dialer, .reconnectTimeMax, .ms⟩

def setOptRecvSizeMax : Setter := ⟨.dialer, .recvSizeMax, .size⟩
def setOptReconnectTimeMin : Setter := ⟨.dialer, .reconnectTimeMin, .ms⟩
def setOptReconnectTimeMax : Setter := ⟨.dialer, .reconnectTimeMax, .ms⟩

end Dialer

/-! ### `listener_view.h` -/

namespace Listener

def getOptLocalAddress : Getter := ⟨.listener, .localAddress, .addr⟩
def getOptUrl : Getter := ⟨.listener, .url, .string⟩
def getOptRecvSizeMax : Getter := ⟨.listener, .recvSizeMax, .size⟩

def setOptRecvSizeMax : Setter := ⟨.listener, .recvSizeMax, .size⟩

end Listener

/-! ### `pipe_view.h` -/

namespace Pipe

def getOptLocalAddress : Getter := ⟨.pipe, .localAddress, .addr⟩
def getOptRemoteAddress : Getter := ⟨.pipe, .remoteAddress, .addr⟩

end Pipe

/-- The getters of the core headers. -/
def coreGetters : List Getter :=
  [Socket.getOptSocketName, Socket.getOptRaw, Socket.getOptProtocol, Socket.getOptProtocolName,
    Socket.getOptPeer, Socket.getOptPeerName, Socket.getOptRecvBuffer, Socket.getOptSendBuffer,
    Socket.getOptRecvFd, Socket.getOptSendFd, Socket.getOptRecvTimeout, Socket.getOptSendTimeout,
    Socket.getOptTtlMax, Socket.getOptRecvSizeMax, Socket.getOptReconnectTimeMin,
    Socket.getOptReconnectTimeMax, Ctx.getOptRecvTimeout, Ctx.getOptSendTimeout,
    Dialer.getOptUrl, Dialer.getOptRecvSizeMax, Dialer.getOptReconnectTimeMin,
    Dialer.getOptReconnectTimeMax, Listener.getOptLocalAddress, Listener.getOptUrl,
    Listener.getOptRecvSizeMax, Pipe.getOptLocalAddress, Pipe.getOptRemoteAddress]

/-- The setters of the core headers. -/
def coreSetters : List Setter :=
  [Socket.setOptSocketName, Socket.setOptRecvBuffer, Socket.setOptSendBuffer,
    Socket.setOptRecvTimeout, Socket.setOptSendTimeout, Socket.setOptTtlMax,
    Socket.setOptReconnectTimeMin, Socket.setOptReconnectTimeMax, Ctx.setOptRecvTimeout,
    Ctx.setOptSendTimeout, Dialer.setOptRecvSizeMax, Dialer.setOptReconnectTimeMin,
    Dialer.setOptReconnectTimeMax, Listener.setOptRecvSizeMax]

/-- The getters that read their option with its own type. -/
theorem getter_type_iff : ∀ g ∈ coreGetters,
    (g.type = toType g.option ↔ g ≠ Socket.getOptRecvSizeMax) := by
  decide

/-- All setters write their option with its own type. -/
theorem setter_type : ∀ s ∈ coreSetters, s.type = toType s.option := by
  decide

end Nngpp.Options
