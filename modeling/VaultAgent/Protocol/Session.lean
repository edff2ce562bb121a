import VaultAgent.Protocol.Request
import VaultAgent.Protocol.Response

/-!
# Serving a client

A connection is bytes in, answered by bytes out. Requests are answered one after the other, each in
the keyring that the ones before it left; one that fails is answered all the same. The connection
ends at a frame that is no request, at an answer that cannot be sent, or when nothing more comes.

Bytes come in pieces that may be cut anywhere. A frame begins with its length; as long as it is not
all there, the next piece is waited for. Then the request is read from what has come so far, behind
the frame too, and the frame is taken off by its length: what a request leaves of its frame is passed
over.
-/

namespace VaultAgent.Protocol

/-- What the requests of a connection work on: the keyring and the calls made to the vault. -/
structure Session where
  keyring : Keyring
  calls : List VaultCall

/-! ## Requests -/

namespace Session

/-- Answers a request that changes the keyring. -/
def change {α : Type} (a : Keyring.KeyringAction α) (s : Session) : Response × Session :=
  match a s.keyring with
  | .ok _ keyring => (.success, { s with keyring })
  | .error _ keyring => (.failure, { s with keyring })

/-- The answer to a request. Nothing is ever added to the keyring. -/
def respond (now : Nat) (vault : Vault) (s : Session) : Request → Response × Session
  | .identities =>
    match s.keyring.identities now with
    | .ok all => (.identities all, s)
    | .error _ => (.failure, s)
  | .sign key data flags =>
    match s.keyring.sign now vault key data flags s.calls with
    | .ok signature calls => (.signature signature, { s with calls })
    | .error _ calls => (.failure, { s with calls })
  | .remove key => s.change (Keyring.remove key)
  | .removeAll => s.change (Keyring.removeAll now)
  | _ => (.failure, s)

end Session

/-! ## Frames -/

/-- What the bytes that have come begin with. -/
inductive Arrival
  /-- No whole frame. -/
  | incomplete
  /-- A request, and the bytes after its frame. -/
  | request (r : Request) (rest : List UInt8)
  /-- A frame that is no request. -/
  | fault (f : Fault)
  deriving DecidableEq, Repr

/-- The length of a frame is written in so many bytes. -/
def headerLength : Nat := 4

def arrival (bytes : List UInt8) : Arrival :=
  let length := beValue (bytes.take headerLength)
  if bytes.length < headerLength + length then .incomplete
  else match Request.ofBytes (bytes.drop headerLength) with
    | .ok r => .request r (bytes.drop (headerLength + length))
    | .error f => .fault f

/-- What comes from a client: pieces, and then the end of what it sends or a failure to read more. -/
structure Input where
  pieces : List (List UInt8)
  ends : Bool

/-- Bytes that come in one piece, with nothing behind them. -/
def Input.whole (bytes : List UInt8) : Input where
  pieces := [bytes]
  ends := true

/-- How a connection ends. -/
inductive Ending
  | closed
  /-- The client stopped inside a frame. -/
  | bytesRemaining
  /-- No more could be read. -/
  | lost
  | fault (f : Fault)
  /-- An answer could not be sent. -/
  | broken
  deriving DecidableEq, Repr

/-- The text of an ending that is an error. -/
def Ending.message? : Ending → Option String
  | closed => none
  | bytesRemaining => some "Agent: I/O error: bytes remaining on stream"
  | lost => some "Agent: I/O error: Connection reset by peer (os error 104)"
  | fault f => some s!"Agent: Protocol error: {f.message}"
  | broken => some "Agent: I/O error: Broken pipe (os error 32)"

/-- The course of a connection: when the requests are answered, and which answers can be sent. -/
structure Course where
  clock : Nat → Nat
  sends : Nat → Bool

namespace Course

/-- All requests are answered at one time, and all answers are sent. -/
def prompt (now : Nat) : Course where
  clock _ := now
  sends _ := true

/-- The course after the first request. -/
def next (c : Course) : Course where
  clock i := c.clock (i + 1)
  sends i := c.sends (i + 1)

end Course

/-- What comes of a connection. -/
structure Served where
  output : List UInt8
  ending : Ending
  session : Session

/-- How a connection ends if no more comes. -/
def Ending.ofSilence (ends : Bool) (buffer : List UInt8) : Ending :=
  if !ends then .lost else if buffer = [] then .closed else .bytesRemaining

/-- Goes on from the bytes in the buffer. Each of the steps, of which there are so many at most,
answers a request or takes a piece in. -/
def serveFrames (vault : Vault) : Nat → Course → List UInt8 → Input → Session → Served
  | 0, _, buffer, input, s => ⟨[], .ofSilence input.ends buffer, s⟩
  | steps + 1, course, buffer, input, s =>
    match arrival buffer with
    | .incomplete =>
      match input.pieces with
      | [] => ⟨[], .ofSilence input.ends buffer, s⟩
      | piece :: pieces =>
        serveFrames vault steps course (buffer ++ piece) { input with pieces } s
    | .fault f => ⟨[], .fault f, s⟩
    | .request r rest =>
      let (response, s) := s.respond (course.clock 0) vault r
      if course.sends 0 then
        let served := serveFrames vault steps course.next rest input s
        { served with output := response.frame ++ served.output }
      else ⟨[], .broken, s⟩

/-- Every frame takes a byte at least, so there are fewer steps than this. -/
def Input.steps (input : Input) : Nat :=
  input.pieces.flatten.length + input.pieces.length + 1

/-- Serves a client from which this comes. -/
def serveAlong (course : Course) (vault : Vault) (input : Input) (s : Session) : Served :=
  serveFrames vault input.steps course [] input s

/-- Serves a client at one time, whatever it is answered. -/
def serve (now : Nat) (vault : Vault) (input : Input) (s : Session) : Served :=
  serveAlong (.prompt now) vault input s

end VaultAgent.Protocol
