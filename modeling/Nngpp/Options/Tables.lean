import Mathlib.Data.List.Nodup
import Mathlib.Logic.Function.Basic

/-!
The options of the core headers, and the two tables of `option.h`.

An option is an enumeration constant. Its name and its type are found by using
the constant as an index, once into a table of the `NNG_OPT_*` macros and once
into a table of types, so both tables have to follow the order of the
enumeration. The texts of the macros are nng's; what is said below about names
holds for any texts which differ from one another.
-/

namespace Nngpp.Options

open Function

/-- `enum option_type`. -/
inductive OptionType
  | bool_ | int_ | ms | size | uint64 | ptr | string | addr
  deriving DecidableEq, Repr

/-- `enum class option`. -/
inductive Opt
  | socketName | raw | protocol | protocolName | peer | peerName | recvBuffer | sendBuffer
  | recvFd | sendFd | recvTimeout | sendTimeout | localAddress | remoteAddress | url | ttlMax
  | recvSizeMax | reconnectTimeMin | reconnectTimeMax
  deriving DecidableEq, Repr

/-- The macros `NNG_OPT_*` of the name table. -/
inductive Macro
  | sockname | raw | proto | protoname | peer | peername | recvbuf | sendbuf | recvfd | sendfd
  | recvtimeo | sendtimeo | locaddr | remaddr | url | maxttl | recvmaxsz | reconnmint | reconnmaxt
  deriving DecidableEq, Repr

/-- `detail::option_names`. -/
def optionNames : Vector Macro 19 :=
  #v[.sockname, .raw, .proto, .protoname, .peer, .peername, .recvbuf, .sendbuf, .recvfd, .sendfd,
    .recvtimeo, .sendtimeo, .locaddr, .remaddr, .url, .maxttl, .recvmaxsz, .reconnmint, .reconnmaxt]

/-- `detail::option_types`. -/
def optionTypes : Vector OptionType 19 :=
  #v[.string, .bool_, .int_, .string, .int_, .string, .int_, .int_, .int_, .int_, .ms, .ms, .addr,
    .addr, .string, .int_, .size, .ms, .ms]

/-- `(int)o`. -/
def Opt.index (o : Opt) : Fin 19 := ⟨o.ctorIdx, by cases o <;> decide⟩

/-- `to_name(o)`, given the texts of the macros. -/
def toName (text : Macro → String) (o : Opt) : String := text optionNames[o.index]

/-- `to_type(o)`. -/
def toType (o : Opt) : OptionType := optionTypes[o.index]

/-- The type which the two tables, read side by side, declare for a name. -/
def declaredType (text : Macro → String) (name : String) : Option OptionType :=
  ((optionNames.toList.zip optionTypes.toList).find? fun e => text e.1 = name).map (·.2)

/-- What nng's header gives for the macros. -/
def nngText : Macro → String
  | .sockname => "socket-name"
  | .raw => "raw"
  | .proto => "protocol"
  | .protoname => "protocol-name"
  | .peer => "peer"
  | .peername => "peer-name"
  | .recvbuf => "recv-buffer"
  | .sendbuf => "send-buffer"
  | .recvfd => "recv-fd"
  | .sendfd => "send-fd"
  | .recvtimeo => "recv-timeout"
  | .sendtimeo => "send-timeout"
  | .locaddr => "local-address"
  | .remaddr => "remote-address"
  | .url => "url"
  | .maxttl => "ttl-max"
  | .recvmaxsz => "recv-size-max"
  | .reconnmint => "reconnect-time-min"
  | .reconnmaxt => "reconnect-time-max"

theorem nngText_injective : Injective nngText := by
  intro a b h
  cases a <;> cases b <;> first | rfl | exact absurd h (by decide)

theorem optionNames_get_injective : Injective fun o : Opt => optionNames[o.index] := by
  intro a b h
  cases a <;> cases b <;> first | rfl | exact absurd h (by decide)

/-- Different options have different names. -/
theorem toName_injective {text : Macro → String} (htext : Injective text) :
    Injective (toName text) :=
  htext.comp optionNames_get_injective

/-- The tables are aligned: the type declared for the name of an option is the
type of the option. -/
theorem declaredType_toName {text : Macro → String} (htext : Injective text) (o : Opt) :
    declaredType text (toName text o) = some (toType o) := by
  have hfind : ((optionNames.toList.zip optionTypes.toList).find?
      fun e => e.1 = optionNames[o.index]).map (·.2) = some (toType o) := by
    cases o <;> decide
  simpa only [declaredType, toName, htext.eq_iff] using hfind

end Nngpp.Options
