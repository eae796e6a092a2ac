import Okou.GuestControl.Read

/-!
# The `exec_start` payload

`start.rs` carries a request to start a process: its lifecycle, role, timeout, command,
environment, output policies, expected exit codes, control channel and standard input.
The encoder checks the request, sums up the length of the payload and then writes it; the
decoder walks over the payload and checks what it reads.

The request that is encoded and the decoded payload have the same fields, and are one type
here.
-/

namespace Okou.GuestControl

open List Parse

/-- The tag of `discard`. -/
def execOutputPolicyDiscard : UInt8 := 0x00
/-- The tag of `capture`. -/
def execOutputPolicyCapture : UInt8 := 0x01
/-- The tag of `stream`. -/
def execOutputPolicyStream : UInt8 := 0x02
/-- The tag of `captureAndStream`. -/
def execOutputPolicyCaptureAndStream : UInt8 := 0x03

/-- The byte of `oneShot`. -/
def execLifecycleOneShot : UInt8 := 0x00
/-- The byte of `supervised`. -/
def execLifecycleSupervised : UInt8 := 0x01

/-- The byte of `workload`. -/
def execProcessRoleWorkload : UInt8 := 0x00
/-- The byte of `agent`. -/
def execProcessRoleAgent : UInt8 := 0x01
/-- The byte of the verifier. -/
def execProcessRoleSessionHistoryIdentityVerifier : UInt8 := 0x02
/-- The byte of the cleanup helper. -/
def execProcessRoleCodexSessionCleanup : UInt8 := 0x03

/-- The tag of a timeout. -/
def execTimeoutDuration : UInt8 := 0x00
/-- The tag of no timeout. -/
def execTimeoutNone : UInt8 := 0x01

/-- The tag of no control channel. -/
def execControlDisabled : UInt8 := 0x00
/-- The tag of a control channel. -/
def execControlEnabled : UInt8 := 0x01
/-- The flag of a sink in the guest. -/
def execControlFlagSink : UInt8 := 0x01

/-- The tag of no input. -/
def execStdinNone : UInt8 := 0x00
/-- The tag of input bytes. -/
def execStdinBytes : UInt8 := 0x01

/-- The flag of `sudo`. -/
def execFlagSudo : UInt8 := 0x01

/-- How many variables are accepted. -/
def maxExecEnvVars : ℕ := 4096
/-- How many exit codes are accepted. -/
def maxExecExpectedExitCodes : ℕ := 64
/-- How much input is accepted. -/
def maxExecStdinBytes : ℕ := 64 * 1024
/-- The length of a nonce. -/
def execControlNonceLen : ℕ := 16

/-- The nonce of a control channel. -/
abbrev ExecControlNonce := { bytes : Bytes // bytes.length = execControlNonceLen }

/-- What becomes of an output stream. -/
inductive ExecOutputPolicy
  | discard
  | capture (limitBytes : UInt32)
  | stream (limitBytes chunkLimitBytes : UInt32)
  | captureAndStream (captureLimitBytes streamLimitBytes chunkLimitBytes : UInt32)
deriving DecidableEq

/-- How long a process is looked after. -/
inductive ExecLifecyclePolicy
  | oneShot
  | supervised
deriving DecidableEq

/-- What a process is for. -/
inductive ExecProcessRole
  | workload
  | agent
  | sessionHistoryIdentityVerifier
  | codexSessionCleanup
deriving DecidableEq

/-- When a process is stopped. -/
inductive ExecTimeoutPolicy
  | duration (timeoutMs : UInt32)
  | none
deriving DecidableEq

/-- The control channel of a process. -/
inductive ExecControlPolicy
  | disabled
  | enabled (controlNonce : ExecControlNonce) (sink : Bool)
deriving DecidableEq

/-- The fields of a request to start a process. -/
structure ExecStart where
  lifecycle : ExecLifecyclePolicy
  role : ExecProcessRole
  timeout : ExecTimeoutPolicy
  command : String
  env : List (String × String)
  withSudo : Bool
  label : String
  stdout : ExecOutputPolicy
  stderr : ExecOutputPolicy
  expectedExitCodes : List Int32
  control : ExecControlPolicy
  stdinBytes : Option Bytes
deriving DecidableEq

/-! ### Checks -/

/-- Streamed chunks have at least a byte. -/
def validateExecOutputChunkLimit (chunkLimitBytes : UInt32) : Except ProtocolError Unit :=
  if chunkLimitBytes = 0 then .error (.invalidPayload "exec output chunk limit must be non-zero")
  else .ok ()

/-- The length of an output policy, which is checked. -/
def execOutputPolicyEncodedLen : ExecOutputPolicy → Except ProtocolError ℕ
  | .discard => .ok 1
  | .capture _ => .ok 5
  | .stream _ chunkLimitBytes => do
    validateExecOutputChunkLimit chunkLimitBytes
    return 9
  | .captureAndStream _ _ chunkLimitBytes => do
    validateExecOutputChunkLimit chunkLimitBytes
    return 13

/-- The length of a timeout. -/
def execTimeoutPolicyEncodedLen : ExecTimeoutPolicy → ℕ
  | .duration _ => 1 + 4
  | .none => 1

/-- The length of a control policy. -/
def execControlPolicyEncodedLen : ExecControlPolicy → ℕ
  | .disabled => 1
  | .enabled _ _ => 1 + 1 + execControlNonceLen

/-- The length of the input, which is checked. -/
def execStdinPolicyEncodedLen : Option Bytes → Except ProtocolError ℕ
  | none => .ok 1
  | some bytes =>
    if maxExecStdinBytes < bytes.length then .error (.payloadTooLarge "stdin_bytes" bytes.length)
    else .ok (1 + 4 + bytes.length)

variable (p : Bytes) (s : String) (r : ExecStart) (timeout : ExecTimeoutPolicy)
  (env : List (String × String))
  (codes : List Int32) (keyVal : String × String) (control : ExecControlPolicy)

/-- A timeout is positive. -/
def validateExecTimeoutPolicy : Except ProtocolError Unit :=
  if timeout = .duration 0 then
    .error (.invalidPayload "exec start timeout duration must be positive")
  else .ok ()

/-- The roles, lifecycles and control channels that go together. -/
def validateExecProcessContract : ExecProcessRole → ExecLifecyclePolicy → ExecControlPolicy →
    Except ProtocolError Unit
  | .workload, .oneShot, .disabled => .ok ()
  | .workload, .supervised, .disabled => .ok ()
  | .workload, .supervised, .enabled _ false => .ok ()
  | .agent, .supervised, .enabled _ true => .ok ()
  | .sessionHistoryIdentityVerifier, .oneShot, .disabled => .ok ()
  | .codexSessionCleanup, .oneShot, .disabled => .ok ()
  | _, _, _ =>
    .error (.invalidPayload "exec start role, lifecycle, and control combination invalid")

/-! ### Writing -/

/-- The byte of a lifecycle. -/
def execLifecycleByte : ExecLifecyclePolicy → UInt8
  | .oneShot => execLifecycleOneShot
  | .supervised => execLifecycleSupervised

/-- The byte of a role. -/
def execProcessRoleByte : ExecProcessRole → UInt8
  | .workload => execProcessRoleWorkload
  | .agent => execProcessRoleAgent
  | .sessionHistoryIdentityVerifier => execProcessRoleSessionHistoryIdentityVerifier
  | .codexSessionCleanup => execProcessRoleCodexSessionCleanup

/-- Writes a lifecycle. -/
def appendExecLifecycle (lifecycle : ExecLifecyclePolicy) : Bytes :=
  p ++ [execLifecycleByte lifecycle]

/-- Writes a role. -/
def appendExecProcessRole (role : ExecProcessRole) : Bytes :=
  p ++ [execProcessRoleByte role]

/-- Writes a timeout. -/
def appendExecTimeoutPolicy : ExecTimeoutPolicy → Bytes
  | .duration timeoutMs => p ++ [execTimeoutDuration] ++ u32Bytes timeoutMs
  | .none => p ++ [execTimeoutNone]

/-- Writes a control policy. -/
def appendExecControlPolicy : ExecControlPolicy → Bytes
  | .disabled => p ++ [execControlDisabled]
  | .enabled controlNonce sink =>
    p ++ [execControlEnabled] ++ [if sink then execControlFlagSink else 0] ++ controlNonce.val

/-- Writes the input. -/
def appendExecStdinPolicy : Option Bytes → Bytes
  | none => p ++ [execStdinNone]
  | some bytes => p ++ [execStdinBytes] ++ u32Bytes (.ofNat bytes.length) ++ bytes

/-- Writes an output policy. -/
def appendExecOutputPolicy : ExecOutputPolicy → Bytes
  | .discard => p ++ [execOutputPolicyDiscard]
  | .capture limitBytes => p ++ [execOutputPolicyCapture] ++ u32Bytes limitBytes
  | .stream limitBytes chunkLimitBytes =>
    p ++ [execOutputPolicyStream] ++ u32Bytes limitBytes ++ u32Bytes chunkLimitBytes
  | .captureAndStream captureLimitBytes streamLimitBytes chunkLimitBytes =>
    p ++ [execOutputPolicyCaptureAndStream] ++ u32Bytes captureLimitBytes ++
      u32Bytes streamLimitBytes ++ u32Bytes chunkLimitBytes

/-- Writes a variable. -/
def appendEnvVar : Bytes :=
  p ++ u32Bytes (.ofNat (strBytes keyVal.1).length) ++ strBytes keyVal.1 ++
    u32Bytes (.ofNat (strBytes keyVal.2).length) ++ strBytes keyVal.2

/-- The length of a payload with one more variable. -/
def addEnvVarLen (payloadLen : ℕ) (keyVal : String × String) : Except ProtocolError ℕ := do
  let keyBytes := strBytes keyVal.1
  let valBytes := strBytes keyVal.2
  let _ ← ensureU32Len "env key" keyBytes.length
  let _ ← ensureU32Len "env value" valBytes.length
  let payloadLen ← checkedPayloadLenAdd payloadLen 8
  let payloadLen ← checkedPayloadLenAdd payloadLen keyBytes.length
  checkedPayloadLenAdd payloadLen valBytes.length

/-- The encoder: all checks and lengths first, then the fields. -/
def encodeExecStartWithExpectedExitCodes (request : ExecStart) : Except ProtocolError Bytes := do
  let cmd := strBytes request.command
  let labelBytes := strBytes request.label
  let cmdLen ← ensureU32Len "command" cmd.length
  let envCount ← ensureU32Count "env_count" request.env.length
  require (request.env.length ≤ maxExecEnvVars)
    (.payloadCountTooLarge "env_count" request.env.length)
  let labelLen ← ensureU16Len "label" labelBytes.length
  let expectedExitCount ← ensureU16Count "expected_exit_count" request.expectedExitCodes.length
  require (request.expectedExitCodes.length ≤ maxExecExpectedExitCodes)
    (.payloadCountTooLarge "expected_exit_count" request.expectedExitCodes.length)
  let stdoutPolicyLen ← execOutputPolicyEncodedLen request.stdout
  let stderrPolicyLen ← execOutputPolicyEncodedLen request.stderr
  let timeoutPolicyLen := execTimeoutPolicyEncodedLen request.timeout
  let controlPolicyLen := execControlPolicyEncodedLen request.control
  let stdinPolicyLen ← execStdinPolicyEncodedLen request.stdinBytes
  validateExecTimeoutPolicy request.timeout
  validateExecProcessContract request.role request.lifecycle request.control
  let payloadLen := 1 + 1 + timeoutPolicyLen + 1 + 4
  let payloadLen ← [cmd.length, 4].foldlM checkedPayloadLenAdd payloadLen
  let payloadLen ← request.env.foldlM addEnvVarLen payloadLen
  let payloadLen ←
    [2, labelBytes.length, stdoutPolicyLen, stderrPolicyLen, 2,
      request.expectedExitCodes.length * 4,
      controlPolicyLen, stdinPolicyLen].foldlM checkedPayloadLenAdd payloadLen
  ensurePayloadFitsMessage payloadLen
  let p := appendExecLifecycle [] request.lifecycle
  let p := appendExecProcessRole p request.role
  let p := appendExecTimeoutPolicy p request.timeout
  let p := p ++ [if request.withSudo then execFlagSudo else 0]
  let p := p ++ u32Bytes cmdLen ++ cmd
  let p := p ++ u32Bytes envCount
  let p := request.env.foldl appendEnvVar p
  let p := p ++ u16Bytes labelLen ++ labelBytes
  let p := appendExecOutputPolicy p request.stdout
  let p := appendExecOutputPolicy p request.stderr
  let p := p ++ u16Bytes expectedExitCount
  let p := request.expectedExitCodes.foldl (fun p exitCode => p ++ i32Bytes exitCode) p
  let p := appendExecControlPolicy p request.control
  return appendExecStdinPolicy p request.stdinBytes

/-! ### Reading -/

/-- Reads an output policy. -/
def decodeExecOutputPolicy : Decode ExecOutputPolicy := do
  let tag ← readU8 "exec output policy tag truncated"
  if tag = execOutputPolicyDiscard then return .discard
  else if tag = execOutputPolicyCapture then
    let limitBytes ← readU32 "exec capture policy limit truncated"
    return .capture limitBytes
  else if tag = execOutputPolicyStream then
    let limitBytes ← readU32 "exec stream policy limit truncated"
    let chunkLimitBytes ← readU32 "exec stream policy chunk limit truncated"
    liftCheck (validateExecOutputChunkLimit chunkLimitBytes)
    return .stream limitBytes chunkLimitBytes
  else if tag = execOutputPolicyCaptureAndStream then
    let captureLimitBytes ← readU32 "exec capture-and-stream capture limit truncated"
    let streamLimitBytes ← readU32 "exec capture-and-stream stream limit truncated"
    let chunkLimitBytes ← readU32 "exec capture-and-stream chunk limit truncated"
    liftCheck (validateExecOutputChunkLimit chunkLimitBytes)
    return .captureAndStream captureLimitBytes streamLimitBytes chunkLimitBytes
  else invalid "invalid exec output policy tag"

/-- Reads a lifecycle. -/
def decodeExecLifecycle : Decode ExecLifecyclePolicy := do
  let tag ← readU8 "exec start lifecycle truncated"
  if tag = execLifecycleOneShot then return .oneShot
  else if tag = execLifecycleSupervised then return .supervised
  else invalid "exec start lifecycle invalid"

/-- Reads a role. -/
def decodeExecProcessRole : Decode ExecProcessRole := do
  let tag ← readU8 "exec start process role truncated"
  if tag = execProcessRoleWorkload then return .workload
  else if tag = execProcessRoleAgent then return .agent
  else if tag = execProcessRoleSessionHistoryIdentityVerifier then
    return .sessionHistoryIdentityVerifier
  else if tag = execProcessRoleCodexSessionCleanup then return .codexSessionCleanup
  else invalid "exec start process role invalid"

/-- Reads a timeout. -/
def decodeExecTimeoutPolicy : Decode ExecTimeoutPolicy := do
  let tag ← readU8 "exec start timeout policy truncated"
  if tag = execTimeoutDuration then
    let timeoutMs ← readU32 "exec start timeout truncated"
    Parse.refuse (timeoutMs = 0) (.invalidPayload "exec start timeout duration must be positive")
    return .duration timeoutMs
  else if tag = execTimeoutNone then return .none
  else invalid "exec start timeout policy invalid"

/-- Reads a control policy. -/
def decodeExecControlPolicy : Decode ExecControlPolicy := do
  let tag ← readU8 "exec start control policy truncated"
  if tag = execControlDisabled then return .disabled
  else if tag = execControlEnabled then
    let flags ← readU8 "exec start control flags truncated"
    Parse.refuse (flags &&& ~~~execControlFlagSink ≠ 0)
      (.invalidPayload "exec start control unknown flags")
    let nonceBytes ← readSlice execControlNonceLen "exec start control nonce truncated"
    if h : nonceBytes.length = execControlNonceLen then
      return .enabled ⟨nonceBytes, h⟩ (flags &&& execControlFlagSink ≠ 0)
    else invalid "exec start control nonce invalid"
  else invalid "exec start control policy invalid"

/-- Reads the input. -/
def decodeExecStdinPolicy : Decode (Option Bytes) := do
  let tag ← readU8 "exec start stdin policy truncated"
  if tag = execStdinNone then return none
  else if tag = execStdinBytes then
    let len ← readU32 "exec start stdin_len truncated"
    Parse.refuse (maxExecStdinBytes < len.toNat) (.invalidPayload "exec start stdin too large")
    let bytes ← readSlice len.toNat "exec start stdin truncated"
    return some bytes
  else invalid "exec start stdin policy invalid"

/-- Reads a variable. -/
def decodeEnvVar : Decode (String × String) := do
  let keyLen ← readU32 "exec start env key_len truncated"
  let key ← readStr keyLen.toNat "exec start env key truncated" "invalid UTF-8 in env key"
  let valLen ← readU32 "exec start env val_len truncated"
  let val ← readStr valLen.toNat "exec start env value truncated" "invalid UTF-8 in env value"
  return (key, val)

/-- Reads the flags, of which only `sudo` is known. -/
def decodeExecFlags : Decode Bool := do
  let flags ← readU8 "exec start flags truncated"
  Parse.refuse (flags &&& ~~~execFlagSudo ≠ 0) (.invalidPayload "exec start unknown flags")
  return flags &&& execFlagSudo ≠ 0

/-- Reads the command. -/
def decodeExecCommand : Decode String := do
  let cmdLen ← readU32 "exec start command_len truncated"
  readStr cmdLen.toNat "exec start command truncated" "invalid UTF-8 in command"

/-- Reads the variables. -/
def decodeExecEnv : Decode (List (String × String)) := do
  let envCount ← readU32 "exec start env_count truncated"
  Parse.refuse (maxExecEnvVars < envCount.toNat) (.invalidPayload "exec start env_count too large")
  -- eight bytes of lengths for each variable, and four bytes after the last one
  let remainingForEnv ← Parse.remaining
  Parse.refuse (remainingForEnv - 4 < envCount.toNat * 8)
    (.invalidPayload "exec start env truncated")
  decodeEnvVar.times envCount.toNat

/-- Reads the label. -/
def decodeExecLabel : Decode String := do
  let labelLen ← readU16 "exec start label_len truncated"
  readStr labelLen.toNat "exec start label truncated" "invalid UTF-8 in label"

/-- Reads the exit codes. -/
def decodeExpectedExitCodes : Decode (List Int32) := do
  let expectedExitCount ← readU16 "exec start expected_exit_count truncated"
  Parse.refuse (maxExecExpectedExitCodes < expectedExitCount.toNat)
    (.invalidPayload "exec start expected_exit_count too large")
  let remaining ← Parse.remaining
  Parse.refuse (remaining < expectedExitCount.toNat * 4)
    (.invalidPayload "exec start expected exits truncated")
  (readI32 "exec start expected exit truncated").times expectedExitCount.toNat

/-- The walk of `decodeExecStart` over the payload. -/
def readExecStart : Decode ExecStart := do
  let lifecycle ← decodeExecLifecycle
  let role ← decodeExecProcessRole
  let timeout ← decodeExecTimeoutPolicy
  let withSudo ← decodeExecFlags
  let command ← decodeExecCommand
  let env ← decodeExecEnv
  let label ← decodeExecLabel
  let stdout ← decodeExecOutputPolicy
  let stderr ← decodeExecOutputPolicy
  let expectedExitCodes ← decodeExpectedExitCodes
  let control ← decodeExecControlPolicy
  let stdinBytes ← decodeExecStdinPolicy
  expectConsumed "exec start trailing bytes"
  liftCheck (validateExecProcessContract role lifecycle control)
  return { lifecycle, role, timeout, command, env, withSudo, label, stdout, stderr, expectedExitCodes,
           control, stdinBytes }

/-- The decoder of a payload. -/
def decodeExecStart (payload : Bytes) : Except ProtocolError ExecStart :=
  (readExecStart payload 0).map Prod.fst

/-! ### The grammar of each field -/

theorem validateExecOutputChunkLimit_eq_ok {chunkLimitBytes} {u} :
    validateExecOutputChunkLimit chunkLimitBytes = .ok u ↔ chunkLimitBytes ≠ 0 := by
  unfold validateExecOutputChunkLimit
  rw [refuse_eq_ok, and_iff_left rfl]

/-- A policy that streams has chunks. -/
def ExecOutputPolicy.Valid : ExecOutputPolicy → Prop
  | .discard => True
  | .capture _ => True
  | .stream _ chunkLimitBytes => chunkLimitBytes ≠ 0
  | .captureAndStream _ _ chunkLimitBytes => chunkLimitBytes ≠ 0

theorem codes_decodeExecOutputPolicy :
    decodeExecOutputPolicy.Codes (appendExecOutputPolicy []) ExecOutputPolicy.Valid := by
  refine ((codes_readU8 _).bind fun tag =>
    .ite (.pure _) (.ite ((codes_readU32 _).bind fun limit => .pure _)
      (.ite ((codes_readU32 _).bind fun limit => (codes_readU32 _).bind fun chunk =>
          reads_liftCheck (.pure _))
        (.ite ((codes_readU32 _).bind fun capture => (codes_readU32 _).bind fun limit =>
            (codes_readU32 _).bind fun chunk => reads_liftCheck (.pure _))
          (.fail _))))).congr fun policy text rest => ?_
  simp only [validateExecOutputChunkLimit_eq_ok]
  constructor
  · rintro ⟨tag, y, rfl, -, h⟩
    split at h
    case isTrue htag =>
      obtain ⟨rfl, rfl⟩ := h
      exact ⟨trivial, by rw [htag]; rfl⟩
    split at h
    case isTrue htag =>
      obtain ⟨limit, _, rfl, -, rfl, rfl⟩ := h
      exact ⟨trivial, by rw [htag, append_nil]; rfl⟩
    split at h
    case isTrue htag =>
      obtain ⟨limit, _, rfl, -, chunk, _, rfl, -, hchunk, rfl, rfl⟩ := h
      exact ⟨hchunk, by rw [htag, append_nil]; rfl⟩
    split at h
    case isTrue htag =>
      obtain ⟨capture, _, rfl, -, limit, _, rfl, -, chunk, _, rfl, -, hchunk, rfl, rfl⟩ := h
      exact ⟨hchunk, by rw [htag, append_nil]; rfl⟩
    case isFalse => exact h.elim
  · rintro ⟨hvalid, rfl⟩
    cases policy with
    | discard => exact ⟨_, [], rfl, trivial, rfl, rfl⟩
    | capture limit => exact ⟨execOutputPolicyCapture, u32Bytes limit, rfl, trivial, limit,
      [], by simp, trivial, rfl, rfl⟩
    | stream limit chunk =>
      exact ⟨execOutputPolicyStream, _, rfl, trivial, limit, _, rfl, trivial, chunk,
        [], by simp, trivial, hvalid, rfl, rfl⟩
    | captureAndStream capture limit chunk =>
      exact ⟨execOutputPolicyCaptureAndStream, _, rfl, trivial, capture, _, rfl, trivial, limit, _,
        rfl, trivial, chunk, [], by simp,
        trivial, hvalid, rfl, rfl⟩

theorem codes_decodeExecLifecycle : decodeExecLifecycle.Codes (appendExecLifecycle []) fun _ =>
    True := by
  refine codes_tag (fun lifecycle => ?_) fun tag => ?_
  · cases lifecycle <;> exact ⟨_, rfl, rfl⟩
  · by_cases hone : tag = execLifecycleOneShot
    · exact .inl ⟨.oneShot, hone ▸ rfl⟩
    by_cases hsup : tag = execLifecycleSupervised
    · exact .inl ⟨.supervised, hsup ▸ rfl⟩
    · exact .inr ⟨_, by rw [if_neg hone, if_neg hsup]⟩

theorem codes_decodeExecProcessRole :
    decodeExecProcessRole.Codes (appendExecProcessRole []) fun _ => True := by
  refine codes_tag (fun role => ?_) fun tag => ?_
  · cases role <;> exact ⟨_, rfl, rfl⟩
  · by_cases hwork : tag = execProcessRoleWorkload
    · exact .inl ⟨.workload, hwork ▸ rfl⟩
    by_cases hagent : tag = execProcessRoleAgent
    · exact .inl ⟨.agent, hagent ▸ rfl⟩
    by_cases hver : tag = execProcessRoleSessionHistoryIdentityVerifier
    · exact .inl ⟨.sessionHistoryIdentityVerifier, hver ▸ rfl⟩
    by_cases hclean : tag = execProcessRoleCodexSessionCleanup
    · exact .inl ⟨.codexSessionCleanup, hclean ▸ rfl⟩
    · exact .inr ⟨_, by rw [if_neg hwork, if_neg hagent, if_neg hver, if_neg hclean]⟩

/-- A timeout is positive. -/
def ExecTimeoutPolicy.Valid : Prop := timeout ≠ .duration 0

theorem codes_decodeExecTimeoutPolicy :
    decodeExecTimeoutPolicy.Codes (appendExecTimeoutPolicy []) ExecTimeoutPolicy.Valid := by
  refine ((codes_readU8 _).bind fun tag =>
    .ite ((codes_readU32 _).bind fun timeoutMs =>
      .refuse (.pure _)) (.ite (.pure _) (.fail _))).congr
      fun timeout text rest => ?_
  constructor
  · rintro ⟨tag, y, rfl, -, h⟩
    split at h
    case isTrue htag =>
      obtain ⟨timeoutMs, _, rfl, -, hpos, rfl, rfl⟩ := h
      exact ⟨fun hzero => hpos (ExecTimeoutPolicy.duration.inj
        hzero), by rw [htag, append_nil]; rfl⟩
    split at h
    case isTrue htag =>
      obtain ⟨rfl, rfl⟩ := h
      exact ⟨nofun, by rw [htag]; rfl⟩
    case isFalse => exact h.elim
  · rintro ⟨hvalid, rfl⟩
    cases timeout with
    | duration timeoutMs =>
      exact ⟨execTimeoutDuration, u32Bytes timeoutMs, rfl, trivial, timeoutMs, [],
        (append_nil _).symm, trivial, fun hzero => hvalid (congrArg _ hzero), rfl, rfl⟩
    | none => exact ⟨_, [], rfl, trivial, rfl, rfl⟩

theorem codes_decodeExecControlPolicy :
    decodeExecControlPolicy.Codes (appendExecControlPolicy []) fun _ => True := by
  have hnonce (flags : UInt8) (nonce : Bytes) : (if h : nonce.length = execControlNonceLen then
        pure (ExecControlPolicy.enabled ⟨nonce, h⟩ (flags &&& execControlFlagSink ≠ 0))
      else invalid "exec start control nonce invalid" : Decode ExecControlPolicy).Reads
        fun control text _ => (∃ h, control = .enabled ⟨nonce,
          h⟩ (flags &&& execControlFlagSink ≠ 0)) ∧ text = [] := by
    by_cases h : nonce.length = execControlNonceLen
    · rw [dif_pos h]
      refine (Parse.Reads.pure _).congr fun control text _ => ?_
      exact and_congr_left' ⟨fun hctrl => ⟨h, hctrl⟩, fun ⟨_, hctrl⟩ => hctrl⟩
    · rw [dif_neg h]
      exact (Parse.Reads.fail _).congr fun control text _ => ⟨False.elim, fun ⟨⟨h', _⟩, _⟩ => h h'⟩
  refine ((codes_readU8 _).bind fun tag =>
    .ite (.pure _) (.ite ((codes_readU8 _).bind fun flags => .refuse
      ((codes_readSlice _ _).bind fun nonce => hnonce flags nonce)) (.fail _))).congr
      fun control text rest => ?_
  constructor
  · rintro ⟨tag, y, rfl, -, h⟩
    split at h
    case isTrue htag =>
      obtain ⟨rfl, rfl⟩ := h
      exact ⟨trivial, by rw [htag]; rfl⟩
    split at h
    case isTrue htag =>
      obtain ⟨flags, _, rfl, -, hflags, nonce, _, rfl, -, ⟨hlen, rfl⟩, rfl⟩ := h
      refine ⟨trivial, ?_⟩
      have hbyte : flags = if decide (flags &&& execControlFlagSink ≠ 0) then execControlFlagSink
        else 0 :=
        (flags_known flags).mp hflags
      rw [htag, appendExecControlPolicy, ← hbyte, append_nil]
      rfl
    case isFalse => exact h.elim
  · rintro ⟨-, rfl⟩
    cases control with
    | disabled => exact ⟨_, [], rfl, trivial, rfl, rfl⟩
    | enabled nonce sink =>
      have hflag := flag_read sink
      refine ⟨execControlEnabled, _, rfl, trivial, if sink then execControlFlagSink else 0, _, rfl,
        trivial, ?_, nonce.val, [], (append_nil _).symm, nonce.property, ⟨nonce.property, ?_⟩, rfl⟩
      · cases sink <;> decide
      · exact congrArg (ExecControlPolicy.enabled nonce) hflag.symm

/-- Standard input is bounded. -/
def StdinValid (stdinBytes : Option Bytes) : Prop := ∀ bytes ∈ stdinBytes,
    bytes.length ≤ maxExecStdinBytes

theorem codes_decodeExecStdinPolicy :
    decodeExecStdinPolicy.Codes (appendExecStdinPolicy []) StdinValid := by
  refine ((codes_readU8 _).bind fun tag =>
    .ite (.pure _) (.ite ((codes_readU32 _).bind fun len => .refuse
      ((codes_readSlice _ _).bind fun bytes => .pure _)) (.fail _))).congr fun stdin text rest => ?_
  constructor
  · rintro ⟨tag, y, rfl, -, h⟩
    split at h
    case isTrue htag =>
      obtain ⟨rfl, rfl⟩ := h
      exact ⟨nofun, by rw [htag]; rfl⟩
    split at h
    case isTrue htag =>
      obtain ⟨len, _, rfl, -, hmax, bytes, _, rfl, hlen, rfl, rfl⟩ := h
      refine ⟨fun b hb => ?_, ?_⟩
      · obtain rfl := Option.mem_some.mp hb
        omega
      · rw [htag, appendExecStdinPolicy, hlen, UInt32.ofNat_toNat, append_nil]
        rfl
    case isFalse => exact h.elim
  · rintro ⟨hvalid, rfl⟩
    cases stdin with
    | none => exact ⟨_, [], rfl, trivial, rfl, rfl⟩
    | some bytes =>
      have hmax := hvalid bytes rfl
      have hlen : (UInt32.ofNat bytes.length).toNat = bytes.length :=
        UInt32.toNat_ofNat_of_lt' (lt_of_le_of_lt hmax (by decide))
      exact ⟨execStdinBytes, _, rfl, trivial, .ofNat bytes.length, _, rfl,
        trivial, by omega, bytes, [],
        (append_nil _).symm, hlen.symm, rfl, rfl⟩

/-- The lengths of a variable fit their fields. -/
def EnvVarValid : Prop :=
  (strBytes keyVal.1).length < 2 ^ 32 ∧ (strBytes keyVal.2).length < 2 ^ 32

theorem codes_decodeEnvVar : decodeEnvVar.Codes (appendEnvVar []) EnvVarValid := by
  refine ((codes_readU32 _).bind fun keyLen => (codes_readStr _ _ _).bind fun key =>
    (codes_readU32 _).bind fun valLen => (codes_readStr _ _ _).bind fun val => .pure _).congr
      fun keyVal text rest => ?_
  constructor
  · rintro ⟨keyLen, _, rfl, -, key, _, rfl, hkey, valLen, _, rfl, -, val, _, rfl, hval, rfl, rfl⟩
    refine ⟨⟨hkey ▸ keyLen.toNat_lt, hval ▸ valLen.toNat_lt⟩, ?_⟩
    simp [appendEnvVar, hkey, hval]
  · rintro ⟨⟨hkey, hval⟩, rfl⟩
    obtain ⟨key, val⟩ := keyVal
    refine ⟨.ofNat (strBytes key).length, _, ?_, trivial, key, _, rfl,
      (UInt32.toNat_ofNat_of_lt' hkey).symm,
      .ofNat (strBytes val).length, _, rfl, trivial, val, [], rfl,
        (UInt32.toNat_ofNat_of_lt' hval).symm, rfl,
      rfl⟩
    simp [appendEnvVar]

/-- The flag byte. -/
def flagsBytes (withSudo : Bool) : Bytes := [if withSudo then execFlagSudo else 0]

theorem codes_decodeExecFlags : decodeExecFlags.Codes flagsBytes fun _ => True := by
  refine ((codes_readU8 _).bind fun flags => .refuse (.pure _)).congr fun flag text rest => ?_
  constructor
  · rintro ⟨flags, _, rfl, -, hflags, rfl, rfl⟩
    have hbyte : flags = if decide (flags &&& execFlagSudo ≠ 0) then execFlagSudo else 0 :=
      (flags_known flags).mp hflags
    exact ⟨trivial, by rw [flagsBytes, ← hbyte]; rfl⟩
  · rintro ⟨-, rfl⟩
    refine ⟨if flag then execFlagSudo else 0, [], rfl, trivial, ?_, (flag_read flag).symm, rfl⟩
    cases flag <;> decide

/-- A string behind its length in four bytes. -/
def longStrBytes : Bytes := u32Bytes (.ofNat (strBytes s).length) ++ strBytes s

/-- A string behind its length in two bytes. -/
def shortStrBytes : Bytes := u16Bytes (.ofNat (strBytes s).length) ++ strBytes s

theorem codes_decodeExecCommand : decodeExecCommand.Codes longStrBytes fun s =>
    (strBytes s).length < 2 ^ 32 := by
  refine ((codes_readU32 _).bind fun len => codes_readStr _ _ _).congr fun s text rest => ?_
  constructor
  · rintro ⟨len, _, rfl, -, hlen, rfl⟩
    refine ⟨?_, by rw [longStrBytes, hlen, UInt32.ofNat_toNat]⟩
    exact lt_of_eq_of_lt hlen len.toNat_lt
  · rintro ⟨hlen, rfl⟩
    exact ⟨_, _, rfl, trivial, (UInt32.toNat_ofNat_of_lt' hlen).symm, rfl⟩

theorem codes_decodeExecLabel : decodeExecLabel.Codes shortStrBytes fun s =>
    (strBytes s).length < 2 ^ 16 := by
  refine ((codes_readU16 _).bind fun len => codes_readStr _ _ _).congr fun s text rest => ?_
  constructor
  · rintro ⟨len, _, rfl, -, hlen, rfl⟩
    refine ⟨?_, by rw [shortStrBytes, hlen, UInt16.ofNat_toNat]⟩
    exact lt_of_eq_of_lt hlen len.toNat_lt
  · rintro ⟨hlen, rfl⟩
    exact ⟨_, _, rfl, trivial, (UInt16.toNat_ofNat_of_lt' hlen).symm, rfl⟩

theorem length_appendEnvVar : (appendEnvVar [] keyVal).length =
    8 + (strBytes keyVal.1).length + (strBytes keyVal.2).length := by
  simp only [appendEnvVar, length_append, length_nil, length_u32Bytes]
  omega

theorem length_flatMap_env_ge : env.length * 8 ≤ (env.flatMap (appendEnvVar [])).length := by
  induction env with
  | nil => exact Nat.le_refl _
  | cons keyVal env ih =>
    rw [flatMap_cons, length_append, length_appendEnvVar, length_cons]
    omega

/-- The environment is bounded in its variables and in their lengths. -/
def EnvValid : Prop :=
  env.length ≤ maxExecEnvVars ∧ ∀ keyVal ∈ env, EnvVarValid keyVal

/-- The environment behind its count. -/
def envBytes : Bytes :=
  u32Bytes (.ofNat env.length) ++ env.flatMap (appendEnvVar [])

/-- The environment is only read if enough follows it for its first check. -/
theorem reads_decodeExecEnv : decodeExecEnv.Reads fun env text rest =>
      (EnvValid env ∧ text = envBytes env) ∧
      env.length * 8 ≤ (env.flatMap (appendEnvVar [])).length + rest.length - 4 := by
  refine ((codes_readU32 _).bind fun count => .refuse (.remaining fun left => .refuse
    (codes_decodeEnvVar.times _))).congr fun env text rest => ?_
  constructor
  · rintro ⟨count, _, rfl, -, hcount, hleft, ⟨hlen, henv⟩, rfl⟩
    dsimp only at hleft
    refine ⟨⟨⟨by omega, henv⟩, by rw [envBytes, hlen, UInt32.ofNat_toNat]⟩, by omega⟩
  · rintro ⟨⟨⟨hmax, henv⟩, rfl⟩, hleft⟩
    have hcount : (UInt32.ofNat env.length).toNat = env.length :=
      UInt32.toNat_ofNat_of_lt' (lt_of_le_of_lt hmax (by decide))
    exact ⟨.ofNat env.length, _, rfl, trivial, by omega, by omega, ⟨hcount.symm, henv⟩, rfl⟩

theorem length_flatMap_i32Bytes : (codes.flatMap i32Bytes).length = codes.length * 4 := by
  simp [length_i32Bytes]

/-- Exit codes behind their count. -/
def exitCodesBytes : Bytes :=
  u16Bytes (.ofNat codes.length) ++ codes.flatMap i32Bytes

theorem codes_decodeExpectedExitCodes :
    decodeExpectedExitCodes.Codes exitCodesBytes fun codes =>
      codes.length ≤ maxExecExpectedExitCodes := by
  refine ((codes_readU16 _).bind fun count => .refuse (.remaining fun left => .refuse
    ((codes_readI32 _).times _))).congr fun codes text rest => ?_
  constructor
  · rintro ⟨count, _, rfl, -, hcount, -, ⟨hlen, -⟩, rfl⟩
    exact ⟨by omega, by rw [exitCodesBytes, hlen, UInt16.ofNat_toNat]⟩
  · rintro ⟨hmax, rfl⟩
    have hcount : (UInt16.ofNat codes.length).toNat = codes.length :=
      UInt16.toNat_ofNat_of_lt' (lt_of_le_of_lt hmax (by decide))
    have hlen := length_flatMap_i32Bytes codes
    exact ⟨.ofNat codes.length, _, rfl,
      trivial, by omega, by omega, ⟨hcount.symm, fun _ _ => trivial⟩, rfl⟩

/-! ### The process contract -/

/-- Whether there is a control channel, and one with a sink in the guest. -/
def ExecControlPolicy.sink : ExecControlPolicy → Option Bool
  | .disabled => none
  | .enabled _ sink => some sink

/-- The matrix that is documented on `ExecStartEncodeRequest`: roles, lifecycles and control
channels that go together. -/
def processContracts : List (ExecProcessRole × ExecLifecyclePolicy × Option Bool) :=
  [(.workload, .oneShot, none),
    (.workload, .supervised, none),
    (.workload, .supervised, some false),
    (.agent, .supervised, some true),
    (.sessionHistoryIdentityVerifier, .oneShot, none),
    (.codexSessionCleanup, .oneShot, none)]

/-- **The validator accepts the documented matrix** and nothing else. -/
theorem validateExecProcessContract_eq_ok {role lifecycle control} :
    validateExecProcessContract role lifecycle control = .ok () ↔
      (role, lifecycle, control.sink) ∈ processContracts := by
  rcases control with _ | ⟨nonce, _ | _⟩ <;> cases role <;> cases lifecycle <;>
    simp [validateExecProcessContract, ExecControlPolicy.sink, processContracts]

/-! ### The decoder -/

/-- The requests that can be sent. -/
structure ExecStart.Valid (r : ExecStart) : Prop where
  timeout : r.timeout.Valid
  command : (strBytes r.command).length < 2 ^ 32
  env : EnvValid r.env
  label : (strBytes r.label).length < 2 ^ 16
  stdout : r.stdout.Valid
  stderr : r.stderr.Valid
  expectedExitCount : r.expectedExitCodes.length ≤ maxExecExpectedExitCodes
  stdin : StdinValid r.stdinBytes
  contract : (r.role, r.lifecycle, r.control.sink) ∈ processContracts

/-- The part of a payload after the environment. -/
def ExecStart.tailBytes : Bytes :=
  shortStrBytes r.label ++ (appendExecOutputPolicy [] r.stdout ++
    (appendExecOutputPolicy [] r.stderr ++ (exitCodesBytes r.expectedExitCodes ++
      (appendExecControlPolicy [] r.control ++ appendExecStdinPolicy [] r.stdinBytes))))

/-- The payload of a request. -/
def ExecStart.bytes : Bytes :=
  appendExecLifecycle [] r.lifecycle ++ (appendExecProcessRole [] r.role ++
    (appendExecTimeoutPolicy [] r.timeout ++ (flagsBytes r.withSudo ++
      (longStrBytes r.command ++ (envBytes r.env ++ r.tailBytes)))))

open ExecStart

/-- Four bytes follow the environment: two lengths. -/
theorem ExecStart.length_tailBytes_ge : 4 ≤ r.tailBytes.length := by
  simp only [tailBytes, shortStrBytes, exitCodesBytes, length_append, length_u16Bytes]
  omega

/-- **The grammar of the payload.** -/
theorem reads_readExecStart : readExecStart.Reads fun r text rest =>
    r.Valid ∧ text = r.bytes ∧ rest = [] := by
  refine (codes_decodeExecLifecycle.bind fun lifecycle =>
    codes_decodeExecProcessRole.bind fun role =>
    codes_decodeExecTimeoutPolicy.bind fun timeout => codes_decodeExecFlags.bind fun withSudo =>
    codes_decodeExecCommand.bind fun command => reads_decodeExecEnv.bind fun env =>
    codes_decodeExecLabel.bind fun label => codes_decodeExecOutputPolicy.bind fun stdout =>
    codes_decodeExecOutputPolicy.bind fun stderr => codes_decodeExpectedExitCodes.bind fun codes =>
    codes_decodeExecControlPolicy.bind fun control => codes_decodeExecStdinPolicy.bind fun stdin =>
    (reads_expectConsumed _).bind fun _ => reads_liftCheck (.pure _)).congr fun r text rest => ?_
  constructor
  · rintro ⟨lifecycle, s₁, h₁, -, role, s₂, h₂, -, timeout, s₃, h₃, htime, withSudo, s₄, h₄, -,
      command, s₅, h₅, hcmd, env, x, s₆, h₆, ⟨⟨henv, hx⟩, -⟩, label, s₇, h₇, hlabel,
      stdout, s₈, h₈, hstdout, stderr, s₉, h₉, hstd, codes, s₁₀, h₁₀, hcodes,
      control, s₁₁, h₁₁, -, stdin, s₁₂, h₁₂, hstdin, _, x', s₁₃, h₁₃, ⟨hx', hrest⟩, hcontr, rfl,
        h₁₄⟩
    refine ⟨⟨htime, hcmd, henv, hlabel, hstdout, hstd, hcodes, hstdin,
      validateExecProcessContract_eq_ok.mp hcontr⟩, ?_, ?_⟩
    · rw [h₁, h₂, h₃, h₄, h₅, h₆, hx, h₇, h₈, h₉, h₁₀, h₁₁, h₁₂, h₁₃, hx', h₁₄, append_nil,
        append_nil]
      rfl
    · rw [h₁₄] at hrest
      exact hrest
  · rintro ⟨hvalid, rfl, rfl⟩
    have henvLen := length_flatMap_env_ge r.env
    have htail := r.length_tailBytes_ge
    refine ⟨r.lifecycle, _, rfl, trivial, r.role, _, rfl, trivial, r.timeout, _, rfl,
      hvalid.timeout, r.withSudo, _, rfl, trivial, r.command, _, rfl, hvalid.command,
      r.env, envBytes r.env, r.tailBytes, rfl, ⟨⟨hvalid.env, rfl⟩, ?_⟩, r.label, _, rfl,
        hvalid.label,
      r.stdout, _, rfl, hvalid.stdout, r.stderr, _, rfl, hvalid.stderr,
      r.expectedExitCodes, _, rfl, hvalid.expectedExitCount, r.control, _, rfl, trivial,
      r.stdinBytes, [], (append_nil _).symm, hvalid.stdin, (), [], [], rfl, ⟨rfl, rfl⟩,
      validateExecProcessContract_eq_ok.mpr hvalid.contract, rfl, rfl⟩
    rw [append_nil]
    omega

variable {payload : Bytes} {r : ExecStart}

theorem decodeExecStart_eq_ok : decodeExecStart payload = .ok r ↔ r.Valid ∧ payload = r.bytes :=
  reads_readExecStart.map_fst_whole

/-! ### The encoder -/

theorem appendExecTimeoutPolicy_eq : appendExecTimeoutPolicy p timeout = p ++
    appendExecTimeoutPolicy [] timeout := by
  cases timeout <;> simp [appendExecTimeoutPolicy]

theorem appendExecControlPolicy_eq : appendExecControlPolicy p control = p ++
    appendExecControlPolicy [] control := by
  cases control <;> simp [appendExecControlPolicy]

theorem appendExecStdinPolicy_eq (stdin) :
    appendExecStdinPolicy p stdin = p ++ appendExecStdinPolicy [] stdin := by
  cases stdin <;> simp [appendExecStdinPolicy]

theorem appendExecOutputPolicy_eq (policy) :
    appendExecOutputPolicy p policy = p ++ appendExecOutputPolicy [] policy := by
  cases policy <;> simp [appendExecOutputPolicy]

theorem foldl_appendEnvVar : env.foldl appendEnvVar p = p ++ env.flatMap (appendEnvVar []) := by
  induction env generalizing p with
  | nil => simp
  | cons keyVal env ih =>
    rw [foldl_cons, ih, flatMap_cons]
    simp [appendEnvVar]

variable {n : ℕ}

theorem execOutputPolicyEncodedLen_eq_ok {policy} :
    execOutputPolicyEncodedLen policy = .ok n ↔ policy.Valid ∧
      n = (appendExecOutputPolicy [] policy).length := by
  cases policy with
  | discard => simp [execOutputPolicyEncodedLen, ExecOutputPolicy.Valid, appendExecOutputPolicy,
    eq_comm]
  | capture limit =>
    simp [execOutputPolicyEncodedLen, ExecOutputPolicy.Valid, appendExecOutputPolicy, eq_comm]
  | stream | captureAndStream =>
    simp only [execOutputPolicyEncodedLen, bind_eq_ok, validateExecOutputChunkLimit_eq_ok]
    simp [ExecOutputPolicy.Valid, appendExecOutputPolicy, pure, Except.pure, eq_comm]

theorem execTimeoutPolicyEncodedLen_eq :
    execTimeoutPolicyEncodedLen timeout = (appendExecTimeoutPolicy [] timeout).length := by
  cases timeout <;> simp [execTimeoutPolicyEncodedLen, appendExecTimeoutPolicy]

theorem execControlPolicyEncodedLen_eq :
    execControlPolicyEncodedLen control = (appendExecControlPolicy [] control).length := by
  cases control with
  | disabled => rfl
  | enabled nonce sink =>
    simp [execControlPolicyEncodedLen, appendExecControlPolicy, nonce.property, execControlNonceLen]

theorem execStdinPolicyEncodedLen_eq_ok {stdin} : execStdinPolicyEncodedLen stdin = .ok n ↔
      StdinValid stdin ∧ n = (appendExecStdinPolicy [] stdin).length := by
  cases stdin with
  | none => simp [execStdinPolicyEncodedLen, StdinValid, appendExecStdinPolicy, eq_comm]
  | some bytes =>
    rw [execStdinPolicyEncodedLen, refuse_eq_ok]
    simp [StdinValid, appendExecStdinPolicy]
    omega

theorem validateExecTimeoutPolicy_eq_ok {timeout} {u} :
    validateExecTimeoutPolicy timeout = .ok u ↔ timeout.Valid := by
  rw [validateExecTimeoutPolicy, refuse_eq_ok, and_iff_left rfl, ExecTimeoutPolicy.Valid]

variable {payloadLen sum : ℕ}

theorem addEnvVarLen_eq_ok {keyVal} : addEnvVarLen payloadLen keyVal = .ok sum ↔
      EnvVarValid keyVal ∧ payloadLen + (appendEnvVar [] keyVal).length ≤ usizeMax ∧
      sum = payloadLen + (appendEnvVar [] keyVal).length := by
  simp only [addEnvVarLen, bind_eq_ok, ensureU32Len_eq_ok, checkedPayloadLenAdd_eq_ok,
    length_appendEnvVar]
  constructor
  · rintro ⟨_, ⟨hkey, -⟩, _, ⟨hval, -⟩, _, ⟨-, rfl⟩, _, ⟨-, rfl⟩, hsum, rfl⟩
    exact ⟨⟨hkey, hval⟩, by omega, by omega⟩
  · rintro ⟨⟨hkey, hval⟩, hsum, rfl⟩
    exact ⟨_, ⟨hkey, rfl⟩, _, ⟨hval, rfl⟩, _, ⟨by omega, rfl⟩, _,
      ⟨by omega, rfl⟩, by omega, by omega⟩

/-- The sum over the environment: it overflows at some variable or at none. -/
theorem foldlM_addEnvVarLen_eq_ok {env : List (String × String)}
    (hstart : payloadLen ≤ usizeMax) : env.foldlM addEnvVarLen payloadLen = .ok sum ↔
      (∀ keyVal ∈ env, EnvVarValid keyVal) ∧ payloadLen + (env.flatMap (appendEnvVar [])).length ≤
        usizeMax ∧ sum = payloadLen + (env.flatMap (appendEnvVar [])).length := by
  induction env generalizing payloadLen with
  | nil =>
    constructor
    · intro h
      exact ⟨nofun, hstart, (Except.ok.inj h).symm⟩
    · rintro ⟨-, -, rfl⟩
      rfl
  | cons keyVal env ih =>
    rw [foldlM_cons, flatMap_cons, length_append, bind_eq_ok, forall_mem_cons, ← Nat.add_assoc]
    simp only [addEnvVarLen_eq_ok]
    constructor
    · rintro ⟨mid, ⟨hvar, hmid, rfl⟩, hrest⟩
      obtain ⟨henv, hsum, rfl⟩ := (ih hmid).mp hrest
      exact ⟨⟨hvar, henv⟩, hsum, rfl⟩
    · rintro ⟨⟨hvar, henv⟩, hsum, rfl⟩
      exact ⟨_, ⟨hvar, by omega, rfl⟩, (ih (by omega)).mpr ⟨henv, hsum, rfl⟩⟩

theorem ExecStart.length_bytes : r.bytes.length =
    1 + 1 + (appendExecTimeoutPolicy [] r.timeout).length + 1 + 4 + [(strBytes r.command).length,
      4].sum +
      (r.env.flatMap (appendEnvVar [])).length +
      [2, (strBytes r.label).length, (appendExecOutputPolicy [] r.stdout).length,
        (appendExecOutputPolicy [] r.stderr).length, 2, r.expectedExitCodes.length * 4,
        (appendExecControlPolicy [] r.control).length,
        (appendExecStdinPolicy [] r.stdinBytes).length].sum := by
  simp only [ExecStart.bytes, tailBytes, appendExecLifecycle, appendExecProcessRole, longStrBytes,
    shortStrBytes, envBytes, exitCodesBytes, flagsBytes, length_append, length_singleton,
      length_nil,
    length_u32Bytes, length_u16Bytes, length_flatMap_i32Bytes, sum_cons, sum_nil]
  omega

/-- What the encoder writes is the payload of the request. -/
theorem ExecStart.written_eq_bytes :
    appendExecStdinPolicy (appendExecControlPolicy (r.expectedExitCodes.foldl
      (fun p exitCode => p ++ i32Bytes exitCode) (appendExecOutputPolicy (appendExecOutputPolicy
        (r.env.foldl appendEnvVar (appendExecTimeoutPolicy (appendExecProcessRole
          (appendExecLifecycle [] r.lifecycle) r.role) r.timeout ++
          [if r.withSudo then execFlagSudo else 0] ++
            u32Bytes (.ofNat (strBytes r.command).length) ++
          strBytes r.command ++ u32Bytes (.ofNat r.env.length)) ++
          u16Bytes (.ofNat (strBytes r.label).length) ++ strBytes r.label) r.stdout) r.stderr ++
          u16Bytes (.ofNat r.expectedExitCodes.length))) r.control) r.stdinBytes = r.bytes := by
  rw [appendExecStdinPolicy_eq, appendExecControlPolicy_eq, foldl_append_eq_append, ← flatMap_def,
    appendExecOutputPolicy_eq,
    appendExecOutputPolicy_eq _ r.stdout, foldl_appendEnvVar, appendExecTimeoutPolicy_eq]
  simp [ExecStart.bytes, tailBytes, appendExecProcessRole, longStrBytes, shortStrBytes, envBytes,
    exitCodesBytes, flagsBytes]

theorem encodeExecStart_eq_ok : encodeExecStartWithExpectedExitCodes r = .ok payload ↔
      r.Valid ∧ r.bytes.length ≤ maxPayloadSize ∧ payload = r.bytes := by
  have husize : maxPayloadSize ≤ usizeMax := by decide
  unfold encodeExecStartWithExpectedExitCodes
  simp only [bind_eq_ok, require_eq_ok, ensureU32Len_eq_ok, ensureU32Count_eq_ok,
    ensureU16Len_eq_ok,
    ensureU16Count_eq_ok, execOutputPolicyEncodedLen_eq_ok, execStdinPolicyEncodedLen_eq_ok,
    validateExecTimeoutPolicy_eq_ok, ensurePayloadFitsMessage_eq_ok,
    length_bytes, execTimeoutPolicyEncodedLen_eq, execControlPolicyEncodedLen_eq]
  constructor
  · rintro ⟨_, ⟨hcmd, rfl⟩, _, ⟨-, rfl⟩, _, hcount, _, ⟨hlabel, rfl⟩, _, ⟨-, rfl⟩, _, hexit,
      _, ⟨hstdout, rfl⟩, _, ⟨hstd, rfl⟩, _, ⟨hstdin, rfl⟩, _, htime, _, hcontr,
      _, hhead, _, henv, _, htail, _, hfits, hwritt⟩
    have hstart : 1 + 1 + (appendExecTimeoutPolicy [] r.timeout).length + 1 + 4 ≤ usizeMax := by
      cases r.timeout <;> simp [appendExecTimeoutPolicy, usizeMax]
    obtain ⟨hheadLen, rfl⟩ := (foldlM_checkedPayloadLenAdd_eq_ok hstart).mp hhead
    obtain ⟨hvars, henvLen, rfl⟩ := (foldlM_addEnvVarLen_eq_ok hheadLen).mp henv
    obtain ⟨-, rfl⟩ := (foldlM_checkedPayloadLenAdd_eq_ok henvLen).mp htail
    refine ⟨?_, hfits, ?_⟩
    · exact ⟨htime, hcmd, ⟨hcount, hvars⟩, hlabel, hstdout, hstd, hexit, hstdin,
        validateExecProcessContract_eq_ok.mp hcontr⟩
    · rw [written_eq_bytes] at hwritt
      exact (Except.ok.inj hwritt).symm
  · rintro ⟨hvalid, hfits, rfl⟩
    have hcount : r.env.length < 2 ^ 32 := lt_of_le_of_lt hvalid.env.1 (by decide)
    have hexit : r.expectedExitCodes.length < 2 ^ 16 :=
      lt_of_le_of_lt hvalid.expectedExitCount (by decide)
    -- every partial sum is below the length of the payload
    have htailLen := hfits.trans husize
    have henvLen := (Nat.le_add_right _ _).trans htailLen
    have hheadLen := (Nat.le_add_right _ _).trans henvLen
    have hhead := (foldlM_checkedPayloadLenAdd_eq_ok ((Nat.le_add_right _ _).trans hheadLen)).mpr
      ⟨hheadLen, rfl⟩
    have henv := (foldlM_addEnvVarLen_eq_ok hheadLen).mpr ⟨hvalid.env.2, henvLen, rfl⟩
    have htail := (foldlM_checkedPayloadLenAdd_eq_ok henvLen).mpr ⟨htailLen, rfl⟩
    refine ⟨_, ⟨hvalid.command, rfl⟩, _, ⟨hcount, rfl⟩, (), hvalid.env.1, _, ⟨hvalid.label, rfl⟩,
      _, ⟨hexit, rfl⟩, (), hvalid.expectedExitCount, _, ⟨hvalid.stdout, rfl⟩, _,
        ⟨hvalid.stderr, rfl⟩,
      _, ⟨hvalid.stdin, rfl⟩, (), hvalid.timeout, (),
      validateExecProcessContract_eq_ok.mpr hvalid.contract, _, hhead, _, henv, _, htail,
      (), hfits, ?_⟩
    rw [written_eq_bytes]
    rfl

/-- **The codec is a bijection** between the requests that can be sent and the payloads that are
accepted. -/
theorem execStart_codec : (∀ request payload,
      encodeExecStartWithExpectedExitCodes request = .ok payload →
      decodeExecStart payload = .ok request) ∧
    ∀ payload : Bytes, payload.length ≤ maxMessageSize - minBodySize →
      ∀ request, decodeExecStart payload = .ok request →
        encodeExecStartWithExpectedExitCodes request = .ok payload ∧ request.Valid := by
  constructor
  · intro request payload hencode
    obtain ⟨hvalid, -, rfl⟩ := encodeExecStart_eq_ok.mp hencode
    exact decodeExecStart_eq_ok.mpr ⟨hvalid, rfl⟩
  · intro payload hfits request hdecode
    obtain ⟨hvalid, rfl⟩ := decodeExecStart_eq_ok.mp hdecode
    exact ⟨encodeExecStart_eq_ok.mpr ⟨hvalid, hfits, rfl⟩, hvalid⟩

/-- A controlled agent with an environment, streamed output and bytes for its input. -/
def agentStart : ExecStart where
  lifecycle := .supervised
  role := .agent
  timeout := .duration 60000
  command := "run"
  env := [("HOME", "/root")]
  withSudo := true
  label := "agent"
  stdout := .captureAndStream 4096 8192 1024
  stderr := .stream 8192 1024
  expectedExitCodes := [-1, 3]
  control := .enabled ⟨List.replicate execControlNonceLen 7, length_replicate⟩ true
  stdinBytes := some [1, 2]

theorem execStart_codec_agent : ∃ payload,
    encodeExecStartWithExpectedExitCodes agentStart = .ok payload ∧
      decodeExecStart payload = .ok agentStart := by
  have hok : (encodeExecStartWithExpectedExitCodes agentStart).isOk = true := by decide +kernel
  cases hencode : encodeExecStartWithExpectedExitCodes agentStart with
  | ok payload => exact ⟨payload, rfl, execStart_codec.1 _ _ hencode⟩
  | error e => simp [hencode, Except.isOk, Except.toBool] at hok

end Okou.GuestControl
