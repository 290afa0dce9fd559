import Mathlib

/-!
# WasiLibc.Errno

The `errno` values that the modelled functions set.  A C function that
returns `-1` and sets `errno` is modelled by a value in `Except Errno _`.
The sockets have error codes of their own, which are mapped.
-/

namespace WasiLibc

/-- `errno` codes, under their C names. -/
inductive Errno where
  | EACCES
  | EADDRINUSE
  | EADDRNOTAVAIL
  | EAFNOSUPPORT
  | EALREADY
  | EBADF
  | EBUSY
  | ECONNABORTED
  | ECONNREFUSED
  | ECONNRESET
  | EDESTADDRREQ
  | EHOSTUNREACH
  | EILSEQ
  | EINPROGRESS
  | EINTR
  | EINVAL
  | EIO
  | EISCONN
  | EMFILE
  | EMSGSIZE
  | ENOENT
  | ENOMEM
  | ENOPROTOOPT
  | ENOSYS
  | ENOTCONN
  | ENOTDIR
  | ENOTSUP
  | ENOTTY
  | EOPNOTSUPP
  | EPIPE
  | ERANGE
  | ESPIPE
  | ETIMEDOUT
  | EWOULDBLOCK
  deriving DecidableEq, Repr

/-- `sockets_error_code_t` of wasip3. -/
inductive SocketError where
  | accessDenied
  | notSupported
  | invalidArgument
  | outOfMemory
  | timeout
  | invalidState
  | addressNotBindable
  | addressInUse
  | remoteUnreachable
  | connectionRefused
  | connectionBroken
  | connectionReset
  | connectionAborted
  | datagramTooLarge
  | other
  deriving DecidableEq, Repr

/-- `__wasilibc_map_socket_error` of wasip3. -/
def mapSocketError : SocketError → Errno
  | .accessDenied => .EACCES
  | .notSupported => .EOPNOTSUPP
  | .invalidArgument => .EINVAL
  | .outOfMemory => .ENOMEM
  | .timeout => .ETIMEDOUT
  | .addressNotBindable => .EADDRNOTAVAIL
  | .addressInUse => .EADDRINUSE
  | .remoteUnreachable => .EHOSTUNREACH
  | .connectionRefused => .ECONNREFUSED
  | .connectionBroken => .EPIPE
  | .connectionReset => .ECONNRESET
  | .connectionAborted => .ECONNABORTED
  | .datagramTooLarge => .EMSGSIZE
  | .invalidState => .ENOTCONN
  | .other => Errno.EIO

/-- `network_error_code_t`, the error codes of the sockets and the resolver of
wasip2. -/
inductive NetworkError where
  | unknown
  | accessDenied
  | notSupported
  | invalidArgument
  | outOfMemory
  | timeout
  | concurrencyConflict
  | notInProgress
  | wouldBlock
  | invalidState
  | newSocketLimit
  | addressNotBindable
  | addressInUse
  | remoteUnreachable
  | connectionRefused
  | connectionReset
  | connectionAborted
  | datagramTooLarge
  | nameUnresolvable
  | temporaryResolverFailure
  | permanentResolverFailure
  deriving DecidableEq, Repr

/-- `__wasilibc_map_socket_error` of wasip2.  The errors of the resolver are not
expected there: `none` is `abort`. -/
def mapNetworkError : NetworkError → Option Errno
  | .accessDenied => some .EACCES
  | .notSupported => some .EOPNOTSUPP
  | .invalidArgument => some .EINVAL
  | .outOfMemory => some .ENOMEM
  | .timeout => some .ETIMEDOUT
  | .concurrencyConflict => some .EALREADY
  | .wouldBlock => some .EWOULDBLOCK
  | .newSocketLimit => some .EMFILE
  | .addressNotBindable => some .EADDRNOTAVAIL
  | .addressInUse => some .EADDRINUSE
  | .remoteUnreachable => some .EHOSTUNREACH
  | .connectionRefused => some .ECONNREFUSED
  | .connectionReset => some .ECONNRESET
  | .connectionAborted => some .ECONNABORTED
  | .datagramTooLarge => some .EMSGSIZE
  | .invalidState => some .ENOTCONN
  | .notInProgress => some .ENOTCONN
  | .nameUnresolvable => none
  | .temporaryResolverFailure => none
  | .permanentResolverFailure => none
  | .unknown => some .EOPNOTSUPP

end WasiLibc
