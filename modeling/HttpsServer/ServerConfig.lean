import HttpsServer.Bytes

/-!
# HttpsServer.ServerConfig

`server::ServerConfig` and its check (`server_config.hpp`,
`server_config.cpp`), with the fields that the check and the server's
construction read.
-/

namespace HttpsServer

structure ServerConfig where
  port : UInt16 := 8443
  workerThreads : UInt64 := 4
  maxConnections : UInt64 := 1024
  tlsEnabled : Bool := true
  certificateFile : Bytes := ascii "certs/server.crt"
  privateKeyFile : Bytes := ascii "certs/server.key"
  deriving DecidableEq

namespace ServerConfig

/-- `validate`, with the text of the `std::invalid_argument` it throws. -/
def validate (config : ServerConfig) : Except String Unit :=
  if config.port = 0 then .error "Port must be greater than zero"
  else if config.workerThreads = 0 then .error "Worker thread count must be greater than zero"
  else if config.maxConnections = 0 then .error "Maximum connection count must be greater than zero"
  else if config.tlsEnabled then
    if config.certificateFile = [] then .error "TLS certificate file cannot be empty"
    else if config.privateKeyFile = [] then .error "TLS private key file cannot be empty"
    else .ok ()
  else .ok ()

/-- What `validate` accepts; the defaults are such a configuration. -/
theorem validate_eq_ok_iff (config : ServerConfig) :
    config.validate = .ok () ↔
      config.port ≠ 0 ∧ config.workerThreads ≠ 0 ∧ config.maxConnections ≠ 0 ∧
        (config.tlsEnabled = true → config.certificateFile ≠ [] ∧ config.privateKeyFile ≠ []) := by
  unfold validate
  grind

example : ({} : ServerConfig).validate = .ok () := rfl

end ServerConfig

end HttpsServer
