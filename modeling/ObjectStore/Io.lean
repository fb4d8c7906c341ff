import ObjectStore.Library.FiniteMap

/-!
# I/O results shared by the services

Every service reports failures as `std::io::Error` values: a kind, which callers
branch on, and a message.  A method that takes `&mut self` is modelled as a
function that returns its result next to the state it leaves behind, so that a
call that fails after changing something is visible as such.

Main definitions:

- `ErrorKind`, `IoError`, `IoResult`: the part of `std::io` the services use.
- `Bytes`: payloads, bodies and headers.
- `Code`, `Status`: what a gRPC handler answers when it fails.
-/

namespace ObjectStore

/-- The values of `std::io::ErrorKind` that the services construct or match on. -/
inductive ErrorKind where
  | alreadyExists
  | notFound
  | invalidInput
  | invalidData
  | hostUnreachable
  | storageFull
  | writeZero
  | unexpectedEof
  | other
deriving DecidableEq, Repr

/-- `std::io::Error`. -/
structure IoError where
  kind : ErrorKind
  message : String
deriving DecidableEq, Repr

/-- `std::io::Result`. -/
abbrev IoResult (α : Type) := Except IoError α

/-- The bytes of a payload, a body or a header. -/
abbrev Bytes := List UInt8

/-! ## gRPC statuses -/

/-- The values of `tonic::Code` that the services use. -/
inductive Code where
  | invalidArgument
  | notFound
  | alreadyExists
  | resourceExhausted
  | failedPrecondition
  | internal
  | unavailable
deriving DecidableEq, Repr

/-- `tonic::Status`. -/
structure Status where
  code : Code
  message : String
deriving DecidableEq, Repr

end ObjectStore
