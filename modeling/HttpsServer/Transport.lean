import HttpsServer.Bytes

/-!
# HttpsServer.Transport

The two layers a connection moves bytes through: `net::Socket` and
`tls::TlsConnection` (`socket.cpp`, `tls_connection.cpp`).

What the operating system and OpenSSL answer to a call is an argument of the
operation.  They take any prefix of the bytes offered to them and deliver any
bytes that fit the buffer, or they fail.
-/

namespace HttpsServer

/-! ## Answers and transfers -/

/-- The answer of `::recv` or `SSL_read`. -/
inductive RecvAnswer where
  /-- What is there to be read; as much of it as fits is delivered. -/
  | data (available : Bytes)
  | wouldBlock
  | failed
  deriving DecidableEq

/-- The answer of `::send` or `SSL_write`. -/
inductive SendAnswer where
  /-- At most `n` of the bytes offered are taken. -/
  | taken (n : Nat)
  | wouldBlock
  | failed
  deriving DecidableEq

/-- The bytes taken of those offered. -/
def SendAnswer.takes (answer : SendAnswer) (offered : Bytes) : Bytes :=
  match answer with
  | .taken n => offered.take n
  | .wouldBlock | .failed => []

/-- The layer that is asked to move bytes. -/
inductive Channel where
  /-- `Socket::receive` or `Socket::send` -/
  | plain
  /-- `TlsConnection::read` or `TlsConnection::write` -/
  | tls
  deriving DecidableEq

/-- What one call of a read or write function does.  It returns the number of
bytes moved, or `0` or `-1` when there are none. -/
structure Transfer where
  /-- The layer called, if any. -/
  channel : Option Channel
  /-- The value returned. -/
  count : Int
  /-- The bytes delivered or taken. -/
  bytes : Bytes
  count_ok : if bytes = [] then count ≤ 0 else count = bytes.length
  deriving DecidableEq

namespace Transfer

/-- The number of bytes moved is returned. -/
def moved (channel : Option Channel) (bytes : Bytes) : Transfer where
  channel := channel
  count := bytes.length
  bytes := bytes
  count_ok := by
    split
    · next h => simp [h]
    · rfl

/-- `-1` is returned. -/
def error (channel : Option Channel) : Transfer where
  channel := channel
  count := -1
  bytes := []
  count_ok := by decide

/-- A positive value is returned exactly when bytes were moved. -/
theorem count_pos_iff (t : Transfer) : 0 < t.count ↔ t.bytes ≠ [] := by
  have h := t.count_ok
  split at h
  · next hnil =>
    simp only [hnil, ne_eq, not_true_eq_false, iff_false]
    omega
  · next hne =>
    have hpos := List.length_pos_iff.mpr hne
    simp only [h, ne_eq, hne, not_false_eq_true, iff_true]
    omega

end Transfer

/-! ## Sizes -/

/-- `static_cast<int>` of a size. -/
def toInt (size : Nat) : Int := (BitVec.ofNat 32 size).toInt

/-- The `int` above as the `size_t` parameter of `::send`. -/
def sendSize (size : Nat) : Nat := ((BitVec.ofNat 32 size).signExtend 64).toNat

/-! ## Socket -/

structure Socket where
  handle : Int := -1
  deriving DecidableEq

namespace Socket

def valid (s : Socket) : Bool := s.handle ≠ -1

def close (_ : Socket) : Socket where
  handle := -1

/-- `receive` into a buffer of `size` bytes.  A shutdown by the peer is a
delivery of no bytes. -/
def receive (s : Socket) (size : Nat) (answer : RecvAnswer) : Transfer :=
  if !s.valid then .error (some .plain)
  else if size = 0 then .moved (some .plain) []
  else
    match answer with
    | .data available => .moved (some .plain) (available.take size)
    | .wouldBlock => .moved (some .plain) []
    | .failed => .error (some .plain)

theorem length_receive_le (s : Socket) (size : Nat) (answer : RecvAnswer) :
    (s.receive size answer).bytes.length ≤ size := by
  unfold receive
  split
  · exact Nat.zero_le _
  · split
    · exact Nat.zero_le _
    · cases answer with
      | data available => exact List.length_take_le _ _
      | wouldBlock | failed => exact Nat.zero_le _

/-- `send`; a call that would block takes nothing and returns `0`. -/
def send (s : Socket) (data : Bytes) (answer : SendAnswer) : Transfer :=
  if !s.valid then .error (some .plain)
  else if data = [] then .moved (some .plain) []
  else
    match answer with
    | .failed => .error (some .plain)
    | _ => .moved (some .plain) (answer.takes (data.take (sendSize data.length)))

end Socket

/-! ## TlsConnection -/

/-- A TLS session. -/
structure TlsConnection where
  /-- `ssl_` is not null. -/
  ssl : Bool
  handshakeComplete : Bool
  «open» : Bool
  deriving DecidableEq

namespace TlsConnection

/-- The session that the constructor leaves when it does not throw. -/
def make : TlsConnection where
  ssl := true
  handshakeComplete := false
  «open» := true

/-- `handshake`, with the success of `SSL_accept`. -/
def handshake (t : TlsConnection) (accepted : Bool) : TlsConnection × Bool :=
  if !t.ssl then (t, false)
  else ({ t with handshakeComplete := accepted }, accepted)

def read (t : TlsConnection) (size : Nat) (answer : RecvAnswer) : Transfer :=
  if !t.open || !t.ssl || size = 0 then .moved (some .tls) []
  else
    let bytes := match answer with
      | .data available => available.take size
      | _ => []
    if bytes = [] then .error (some .tls) else .moved (some .tls) bytes

theorem length_read_le (t : TlsConnection) (size : Nat) (answer : RecvAnswer) :
    (t.read size answer).bytes.length ≤ size := by
  unfold read
  split
  · exact Nat.zero_le _
  · cases answer with
    | data available =>
        dsimp only
        split
        · exact Nat.zero_le _
        · exact List.length_take_le _ _
    | wouldBlock | failed => exact Nat.zero_le _

/-- `write`; `SSL_write` fails on a negative size. -/
def write (t : TlsConnection) (data : Bytes) (answer : SendAnswer) : Transfer :=
  if !t.open || !t.ssl || data = [] then .moved (some .tls) []
  else
    let bytes := answer.takes (data.take (toInt data.length).toNat)
    if bytes = [] then .error (some .tls) else .moved (some .tls) bytes

def close (t : TlsConnection) : TlsConnection :=
  { t with «open» := false, ssl := false }

end TlsConnection

end HttpsServer
