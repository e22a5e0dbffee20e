import Realraum.Daemon.Model.Queue
/-!
# The daemon — `client_list.c` and the read buffer

A `read_buffer_t` is its offset and its memory; nothing keeps an index
below `sizeof(buf)` but the code that uses it. A client's `conn` is not
in the source: it is the connection behind `fd`, which is what tells two
clients apart that were given the same descriptor one after the other.
-/

namespace Realraum

namespace Daemon

/-- `sizeof(buf)` of `read_buffer_t`. -/
def sizeofBuf : ℕ := 100

/-- `read_buffer_t`, over memory that can hold anything. -/
structure ReadBuffer where
  offset : ℕ
  buf : ℕ → UInt8

instance : Inhabited ReadBuffer := ⟨⟨0, fun _ => 0⟩⟩

namespace ReadBuffer

/-- `buf[i] = x`. -/
def store (b : ReadBuffer) (i : ℕ) (x : UInt8) : ReadBuffer :=
  { b with buf := fun j => if j = i then x else b.buf j }

/-- `buf[0..offset)`. -/
def contents (b : ReadBuffer) : List UInt8 :=
  (List.range b.offset).map b.buf

/-- The string at `buf` where `buf[offset]` is NUL. -/
def text (b : ReadBuffer) : CStr := cstring b.contents

/-- `offset = 0`. -/
def reset (b : ReadBuffer) : ReadBuffer := { b with offset := 0 }

end ReadBuffer

/-- The five subscription flags of a `client_t`. -/
structure Listeners where
  request : Bool
  error : Bool
  sensor : Bool
  movement : Bool
  button : Bool
  deriving DecidableEq

/-- No subscription. -/
def Listeners.none : Listeners := ⟨false, false, false, false, false⟩

/-- Every subscription. -/
def Listeners.all : Listeners := ⟨true, true, true, true, true⟩

/-- `client_t`. -/
structure Client where
  fd : ℕ
  conn : ℕ
  listeners : Listeners
  buffer : ReadBuffer

/-- `client_add`: a client without subscriptions at the end of the list,
or `-2` and an unchanged list where `malloc` fails. `stale` is what the
allocated memory holds. -/
def clientAdd (lst : List Client) (fd conn : ℕ) (malloc : Bool) (stale : ℕ → UInt8) :
    ℤ × List Client :=
  if !malloc then (-2, lst)
  else (0, lst ++ [⟨fd, conn, .none, ⟨0, stale⟩⟩])

/-- `client_remove`: the first client with this descriptor goes. -/
def clientRemove (lst : List Client) (fd : ℕ) : List Client :=
  lst.eraseP fun c => c.fd = fd

/-- `client_find`. -/
def clientFind (lst : List Client) (fd : ℕ) : Option Client :=
  lst.find? fun c => c.fd = fd

end Daemon

end Realraum
