import HttpsServer.Connection
import HttpsServer.Response
import HttpsServer.Transport

/-!
# HttpsServer.Connection.Operations

The state of a `Connection` and those of its functions that do not loop
(`connection.cpp`): `handshake`, `close`, `read`, `write`, `send_response` and
`should_keep_alive`.

`send_response` makes one call of `write` and takes every result that is not
negative for success.  So it delivers the whole response exactly when the
transport takes the whole response in that call, or fails
(`deliversWhole_iff`).
-/

namespace HttpsServer

/-! ## Connection -/

structure Connection where
  socket : Socket
  /-- `tls_context_` is not null. -/
  tlsContext : Bool
  tlsConnection : Option TlsConnection := none
  limits : ParseLimits
  keepAliveTimeoutSeconds : UInt32
  readBuffer : Bytes := []
  tlsEnabled : Bool := tlsContext
  «open» : Bool := true
  handshakeComplete : Bool := false

/-- How setting up a TLS session and its handshake end. -/
inductive HandshakeOutcome where
  /-- The constructor of `TlsConnection` throws. -/
  | constructorThrew
  /-- `SSL_accept` succeeds. -/
  | accepted
  /-- `SSL_accept` fails. -/
  | refused
  deriving DecidableEq

namespace Connection

/-- The constructor. -/
def make (socket : Socket) (tlsContext : Bool) (limits : ParseLimits)
    (keepAliveTimeoutSeconds : UInt32) : Connection where
  socket := socket
  tlsContext := tlsContext
  limits := limits
  keepAliveTimeoutSeconds := keepAliveTimeoutSeconds

/-- `handshake`, and the value it returns unless it throws. -/
def handshake (c : Connection) (outcome : HandshakeOutcome) : Connection × Option Bool :=
  if !c.tlsEnabled || !c.tlsContext then ({ c with handshakeComplete := true }, some true)
  else
    match outcome with
    | .constructorThrew => (c, none)
    | _ =>
      let (tls, complete) := TlsConnection.make.handshake (outcome = .accepted)
      ({ c with tlsConnection := some tls, handshakeComplete := complete }, some complete)

def close (c : Connection) : Connection :=
  { c with
    «open» := false
    tlsConnection := c.tlsConnection.map TlsConnection.close
    socket := c.socket.close }

/-- `read` into a buffer of `size` bytes. -/
def read (c : Connection) (size : Nat) (answer : RecvAnswer) : Transfer :=
  if !c.socket.valid then .error none
  else
    match c.tlsEnabled, c.tlsConnection with
    | true, some tls => tls.read size answer
    | _, _ => c.socket.receive size answer

def write (c : Connection) (data : Bytes) (answer : SendAnswer) : Transfer :=
  if !c.socket.valid then .error none
  else
    match c.tlsEnabled, c.tlsConnection with
    | true, some tls => tls.write data answer
    | _, _ => c.socket.send data answer

/-- `send_response`: the value returned, and what its call of `write` did. -/
def sendResponse (c : Connection) (response : HttpResponse) (answer : SendAnswer) :
    Bool × Transfer :=
  let payload := response.serialize
  let transfer := c.write payload answer
  (if transfer.count < 0 then false else true, transfer)

def shouldKeepAlive (c : Connection) (request : HttpRequest) : Bool :=
  request.keepAlive && c.keepAliveTimeoutSeconds > 0

/-- `handshake` sets up the TLS session and changes nothing else. -/
theorem handshake_eq (c : Connection) (outcome : HandshakeOutcome) :
    ∃ tls complete, (c.handshake outcome).1 =
      { c with tlsConnection := tls, handshakeComplete := complete } := by
  unfold handshake
  split
  · exact ⟨c.tlsConnection, true, rfl⟩
  · cases outcome with
    | constructorThrew => exact ⟨c.tlsConnection, c.handshakeComplete, rfl⟩
    | accepted | refused => exact ⟨_, _, rfl⟩

/-- The socket is valid, and so is the TLS session if there is one. -/
def Ready (c : Connection) : Prop :=
  c.socket.valid = true ∧ ∀ tls ∈ c.tlsConnection, tls.open = true ∧ tls.ssl = true

/-- A transport that is ready delivers what arrives. -/
theorem Ready.bytes_read {c : Connection} (h : c.Ready) {data : Bytes} {size : Nat}
    (hlen : data.length ≤ size) : (c.read size (.data data)).bytes = data := by
  have htake : data.take size = data := List.take_of_length_le hlen
  have hzero : size = 0 → data = [] := fun h => List.length_eq_zero_iff.mp (by omega)
  have hreceive : (c.socket.receive size (.data data)).bytes = data := by
    unfold Socket.receive
    rw [h.1, if_neg (by decide)]
    split
    · next hsize => exact (hzero hsize).symm
    · exact htake
  unfold read
  rw [h.1, if_neg (by decide)]
  cases c.tlsEnabled with
  | false => exact hreceive
  | true =>
      cases htls : c.tlsConnection with
      | none => exact hreceive
      | some tls =>
          obtain ⟨ho, hs⟩ := h.2 tls htls
          show (tls.read size (.data data)).bytes = data
          unfold TlsConnection.read
          rw [ho, hs]
          split
          · next hsize =>
            have hsize : size = 0 := by simpa using hsize
            exact (hzero hsize).symm
          · simp only [htake]
            split
            · next hnil => exact hnil.symm
            · rfl

/-- A read that fails delivers nothing. -/
theorem bytes_read_failed (c : Connection) (size : Nat) : (c.read size .failed).bytes = [] := by
  unfold read
  split
  · rfl
  · split
    · unfold TlsConnection.read
      split <;> rfl
    · unfold Socket.receive
      split
      · rfl
      · split <;> rfl

/-- A read delivers no more than the buffer holds. -/
theorem length_read_le (c : Connection) (size : Nat) (answer : RecvAnswer) :
    (c.read size answer).bytes.length ≤ size := by
  unfold read
  split
  · exact Nat.zero_le _
  · split
    · exact TlsConnection.length_read_le _ _ _
    · exact Socket.length_receive_le _ _ _

/-! ## Whole responses -/

/-- When `send_response` reports success the transport has received the whole
response. -/
def DeliversWhole (c : Connection) (response : HttpResponse) (answer : SendAnswer) : Prop :=
  (c.sendResponse response answer).1 = true →
    (c.sendResponse response answer).2.bytes = response.serialize

/-- The connection is closed, or the transport takes all of the payload in one
call, or it fails; a TLS session that takes nothing fails, a socket that takes
nothing does not. -/
def TakesWhole (c : Connection) (payload : Bytes) (answer : SendAnswer) : Prop :=
  c.socket.valid = false ∨
    match c.tlsEnabled, c.tlsConnection with
    | true, some tls =>
      (tls.open = true ∧ tls.ssl = true) ∧
        (answer.takes (payload.take (toInt payload.length).toNat) = [] ∨
          answer.takes (payload.take (toInt payload.length).toNat) = payload)
    | _, _ =>
      answer = .failed ∨ answer.takes (payload.take (sendSize payload.length)) = payload

theorem serialize_ne_nil (response : HttpResponse) : response.serialize ≠ [] := by
  simp [HttpResponse.serialize, HttpResponse.serializeIn, ascii]

/-- `write` reports success without having moved all of the payload, unless
the transport takes all of it. -/
theorem write_whole_iff (c : Connection) {payload : Bytes} (hne : payload ≠ [])
    (answer : SendAnswer) :
    (0 ≤ (c.write payload answer).count → (c.write payload answer).bytes = payload) ↔
      c.TakesWhole payload answer := by
  have hmoved : ∀ (channel : Option Channel) (bytes : Bytes),
      (0 ≤ (Transfer.moved channel bytes).count → (Transfer.moved channel bytes).bytes = payload) ↔
        bytes = payload :=
    fun channel bytes => ⟨fun h => h (Int.natCast_nonneg _), fun h _ => h⟩
  have herror : ∀ channel : Option Channel,
      0 ≤ (Transfer.error channel).count → (Transfer.error channel).bytes = payload :=
    fun _ h => absurd h (show ¬ (0 : Int) ≤ -1 by decide)
  unfold write TakesWhole
  cases hv : c.socket.valid with
  | false => simpa using herror none
  | true =>
      simp only [Bool.not_true, Bool.false_eq_true, if_false, reduceCtorEq, false_or]
      split
      · next tls _ _ =>
        unfold TlsConnection.write
        cases ho : tls.open with
        | false => simpa [hmoved] using hne.symm
        | true =>
            cases hs : tls.ssl with
            | false => simpa [hmoved] using hne.symm
            | true =>
                simp only [Bool.not_true, Bool.or_self, hne, decide_false, Bool.false_eq_true,
                  if_false, and_self, true_and]
                split
                · next h => simpa [h] using herror (some .tls)
                · next h => rw [hmoved, or_iff_right h]
      · unfold Socket.send
        simp only [hv, Bool.not_true, Bool.false_eq_true, if_false, hne]
        split
        · simpa using herror (some .plain)
        · next hfailed => rw [hmoved, or_iff_right hfailed]

/-- **Whole responses**: success means delivery exactly when the transport
takes the response whole or fails. -/
theorem deliversWhole_iff (c : Connection) (response : HttpResponse) (answer : SendAnswer) :
    c.DeliversWhole response answer ↔ c.TakesWhole response.serialize answer := by
  rw [← c.write_whole_iff (serialize_ne_nil response) answer]
  simp [DeliversWhole, sendResponse]

/-- A socket that takes the first byte only: `send_response` reports success. -/
theorem not_deliversWhole_partial :
    ¬ ∀ (c : Connection) (response : HttpResponse) (answer : SendAnswer),
      c.DeliversWhole response answer := by
  intro h
  have hwhole := h (.make ⟨3⟩ false {} 5) (.ok (ascii "hi")) (.taken 1) (by decide +kernel)
  revert hwhole
  decide +kernel

end Connection

end HttpsServer
