import TwilightLine.Misc.AddrBytes

/-! The numbers of the SOCKS protocol, `misc/socks_proto.h`. -/
namespace TwilightLine

/-- `SOCKS_VERSION`. -/
def socksVersion : UInt8 := 5

/-- `SOCKS_METHOD_NO_AUTHENTICATION_REQUIRED`. -/
def socksMethodNoAuthenticationRequired : UInt8 := 0

/-- `SOCKS_METHOD_USERNAME_PASSWORD`. -/
def socksMethodUsernamePassword : UInt8 := 2

/-- `SOCKS_CMD_CONNECT`. -/
def socksCmdConnect : UInt8 := 1

/-- `SOCKS_CMD_UDP_ASSOCIATE`. -/
def socksCmdUdpAssociate : UInt8 := 3

/-- `SOCKS_REP_SUCCEEDED`. -/
def socksRepSucceeded : UInt8 := 0

/-- `sizeof(struct socks_server_hello)`. -/
def socksServerHelloSize : Nat := 2

/-- `sizeof(struct socks_reply_header)`. -/
def socksReplyHeaderSize : Nat := 4

namespace SocksUdp

def socksAtypIpv4 : UInt8 := 1

def socksAtypIpv6 : UInt8 := 4

/-- The address type of an address that has one. -/
def socksAtyp (remoteAddr : BAddr) : Option UInt8 :=
  match remoteAddr with
  | .ipv4 .. => some socksAtypIpv4
  | .ipv6 .. => some socksAtypIpv6
  | .none => none

end SocksUdp

end TwilightLine
