import SealedHttp.Cipher.KeyRing
import SealedHttp.Settings.Layer

/-!
# Settings of a server

Every setting has a default. A value that is too large for a setting is cut to the width of the
setting; a value of an unsuitable type is refused.
-/

namespace SealedHttp

structure FirstVersionSettings where
  halfClose : Bool := false
  maxBufSize : Nat := 524288
  pipelineFlush : Bool := false
  writev : Bool := true
  titleCaseHeaders : Bool := true
  preserveHeaderCase : Bool := false
  only : Bool := false
  deriving DecidableEq, Repr

structure SecondVersionSettings where
  only : Bool := false
  initialStreamWindowSize : Option Nat := none
  initialConnectionWindowSize : Option Nat := none
  adaptiveWindow : Bool := true
  maxFrameSize : Option Nat := none
  maxConcurrentStreams : Option Nat := none
  maxSendBufSize : Nat := 524288
  deriving DecidableEq, Repr

def defaultMaxIdle : Nat := 100

structure Settings where
  /-- The bound on workers; without one the machine decides. -/
  maxWorkers : Option Nat := none
  /-- How long idle workers wait for a job, in seconds. -/
  workerKeepAlive : Nat := 6
  host : String := "127.0.0.1"
  port : Nat := 3000
  keepAlive : Bool := true
  useObjectPool : Bool := false
  poolMaxIdle : Nat := defaultMaxIdle
  notFoundInfo : String := "HTTP STATUS 404 Not Found"
  aesPassphrase : String := KeyRing.legacyPassphrase
  /-- The file of the private key; without one a pair is generated. -/
  rsaPrivateKeyPath : Option String := none
  rsaKeyBits : Nat := 1024
  firstVersion : FirstVersionSettings := {}
  secondVersion : SecondVersionSettings := {}
  deriving DecidableEq, Repr

namespace Settings

def address (s : Settings) : String := s!"{s.host}:{s.port}"

/-- A setting of the first layer that has its key, otherwise its default. -/
def read {α : Type} (layers : List Layer) (key : String) (default : α) (as? : Setting → Option α) :
    Except SettingsError α :=
  match layers.findSome? (Layer.find? key) with
  | none => .ok default
  | some v =>
    match as? v with
    | some a => .ok a
    | none => .error (.unusable key)

/-- A number of the given width. -/
def word (width : Nat) (v : Setting) : Option Nat := v.toNat?.map (· % (1 <<< width))

def optional {α : Type} (as? : Setting → Option α) : Setting → Option (Option α)
  | .nothing => some none
  | v => (as? v).map some

def ofLayers (layers : List Layer) : Except SettingsError Settings := do
  let d : Settings := {}
  let long (key : String) (default : Nat) := read layers key default (word 64)
  let short (key : String) := read layers key none (optional (word 32))
  let flag (key : String) (default : Bool) := read layers key default Setting.toBool?
  let text (key : String) (default : String) := read layers key default Setting.toText?
  return {
    maxWorkers := ← read layers "max_workers" d.maxWorkers fun v => (word 64 v).map some
    workerKeepAlive := ← long "worker_keep_alive_secs" d.workerKeepAlive
    host := ← text "host" d.host
    port := ← read layers "port" d.port (word 16)
    keepAlive := ← flag "keep_alive" d.keepAlive
    useObjectPool := ← flag "use_object_pool" d.useObjectPool
    poolMaxIdle := ← long "pool_max_idle" d.poolMaxIdle
    notFoundInfo := ← text "default_404_info" d.notFoundInfo
    aesPassphrase := ← text "aes_passphrase" d.aesPassphrase
    rsaPrivateKeyPath := ← read layers "rsa_private_key_path" none (optional Setting.toText?)
    rsaKeyBits := ← long "rsa_key_bits" d.rsaKeyBits
    firstVersion := {
      halfClose := ← flag "http1_half_close" d.firstVersion.halfClose
      maxBufSize := ← long "http1_max_buf_size" d.firstVersion.maxBufSize
      pipelineFlush := ← flag "http1_pipeline_flush" d.firstVersion.pipelineFlush
      writev := ← flag "http1_writev" d.firstVersion.writev
      titleCaseHeaders := ← flag "http1_title_case_headers" d.firstVersion.titleCaseHeaders
      preserveHeaderCase := ← flag "http1_preserve_header_case" d.firstVersion.preserveHeaderCase
      only := ← flag "http1_only" d.firstVersion.only }
    secondVersion := {
      only := ← flag "http2_only" d.secondVersion.only
      initialStreamWindowSize := ← short "http2_initial_stream_window_size"
      initialConnectionWindowSize := ← short "http2_initial_connection_window_size"
      adaptiveWindow := ← flag "http2_adaptive_window" d.secondVersion.adaptiveWindow
      maxFrameSize := ← short "http2_max_frame_size"
      maxConcurrentStreams := ← short "http2_max_concurrent_streams"
      maxSendBufSize := ← long "http2_max_send_buf_size" d.secondVersion.maxSendBufSize } }

def load (vars : EnvFile.Variables) (files : Files) : Except SettingsError Settings := do
  let fileLayer ← files.settings
  ofLayers [Layer.ofEnvironment (files.environment vars), fileLayer]

end Settings
end SealedHttp
