import Pgx.Conn.Talk
import Pgx.Connect.RequireAuth
import Pgx.Connect.Scram

/-!
# The connect loop

`connectOne` from the moment the network connection is there: the startup
message, the messages of the server one by one, and the authentication methods
that read messages of their own. Everything the server sends while the client
connects is in the inbox from the start. Closing the network connection on the
way out is not modelled, since no connection is returned then.
-/
namespace Pgx.Connect

open Pgx.Go Pgx.Wire Pgx.Conn Pgx.Effect

/-- A GSSAPI provider. `continueWith` is given every token received so far. -/
structure GSS where
  getInitToken : Bytes → Bytes → Except Error Bytes
  getInitTokenFromSPN : Bytes → Except Error Bytes
  continueWith : List Bytes → Except Error (Bool × Bytes)

/-- What `ValidateConnect` returned. -/
inductive Validation where
  | valid
  | notPreferred (err : Error)
  | invalid (err : Error)

structure ConnectPlatform extends Platform where
  /-- The registered GSS provider. -/
  newGSS : Option (Except Error GSS)
  /-- The status in the JSON text of an OAuth failure. -/
  unmarshalStatus : Bytes → Except Error String

structure Config where
  host : Bytes
  user : Bytes
  password : Bytes
  database : Bytes
  runtimeParams : Map Bytes Bytes
  minProtocolVersion : String
  maxProtocolVersion : String
  requireAuth : Text
  channelBinding : String
  kerberosSpn : Bytes
  kerberosSrvName : Bytes
  oauthTokenProvider : Option (List Event → Except Error Bytes)
  /-- The callback may run queries, which read what the server sends next. -/
  validateConnect : Option (List Incoming → Validation)

def rxGSSContinue (env : Env) : Op Bytes := do
  let msg ← receiveMessage env
  match msg with
  | .authenticationGSSContinue data => pure data
  | .errorResponse err => throw (.pgError err)
  | _ => throw (.errorf
      "expected AuthenticationGSSContinue message but received unexpected message %T" [msg.typeName])

/-- One round: the tokens received so far and the data to send next. -/
def gssRound (env : Env) (cli : GSS) (st : List Bytes × Bytes) :
    Op ((List Bytes × Bytes) ⊕ Unit) := do
  send (.gssResponse st.2)
  writeBuffer env
  let data ← rxGSSContinue env
  let r ← ofExcept (cli.continueWith (st.1 ++ [data]))
  pure (if r.1 then .inr () else .inl (st.1 ++ [data], r.2))

theorem rxGSSContinue_reads (env : Env) : Reads 1 (rxGSSContinue env) := by
  refine (receiveMessage_reads env).bind (n := 0) fun msg => ?_
  cases msg with
  | authenticationGSSContinue data => exact .pure
  | _ => exact .throw

theorem gssRound_reads (env : Env) (cli : GSS) (st : List Bytes × Bytes) :
    Reads 1 (gssRound env cli st) :=
  (send_reads _).bind fun _ => (writeBuffer_reads env).bind fun _ =>
    (rxGSSContinue_reads env).bind (n := 0) fun _ => Reads.ofExcept.bind fun _ => Reads.pure

def gssLoop (env : Env) (cli : GSS) : Loop PgConn Error (List Bytes × Bytes) Unit where
  body := gssRound env cli
  measure := PgConn.unread
  progress st _ _ _ h := (gssRound_reads env cli st).progress h

def Config.initToken (cfg : Config) (cli : GSS) : Except Error Bytes :=
  if cfg.kerberosSpn ≠ [] then cli.getInitTokenFromSPN cfg.kerberosSpn
  else cli.getInitToken cfg.host
    (if cfg.kerberosSrvName ≠ [] then cfg.kerberosSrvName else ascii "postgres")

def gssAuth (p : ConnectPlatform) (cfg : Config) : Op Unit := do
  match p.newGSS with
  | none => throw (.new
      "kerberos error: no GSSAPI provider registered, see https://github.com/otan/gopgkrb5")
  | some provider =>
    let cli ← ofExcept provider
    let nextData ← ofExcept (cfg.initToken cli)
    (gssLoop p.env cli).run ([], nextData)

def bearer (token : Bytes) : Bytes := ascii "n,," ++ [1] ++ ascii "auth=Bearer " ++ token ++ [1, 1]

def oauthAuth (p : ConnectPlatform) (cfg : Config) : Op Unit := do
  match cfg.oauthTokenProvider with
  | none => throw (.new "OAuth authentication required but no token provider configured")
  | some provider =>
    let c ← get
    let token ← EStateM.adaptExcept
      (fun err => .wrapf "failed to obtain OAuth token: %w" err) (ofExcept (provider c.wire))
    send (.saslInitialResponse (ascii "OAUTHBEARER") (bearer token))
    writeBuffer p.env
    let msg ← receiveMessage p.env
    match msg with
    | .authenticationOk => pure ()
    | .authenticationSASLContinue data =>
      match p.unmarshalStatus data with
      | .error err => throw (.wrapf "invalid OAuth error response from server: %w" err)
      | .ok status => throw (.errorf "OAuth authentication failed: %s" [status])
    | .errorResponse err => throw (.pgError err)
    | _ => throw (.errorf "unexpected message type during OAuth auth: %T" [msg.typeName])

/-! ## The loop -/

def perDialConnectError (msg : String) (err : Option Error) : Error := .wrap (msg ++ ": %w") err

/-- Run a step of the connection attempt; its error becomes that of the attempt. -/
def orFail {α : Type} (msg : String) (x : Op α) : Op α :=
  x.adaptExcept fun err => perDialConnectError msg (some err)

def hexMD5 (k : Crypto) (s : Bytes) : Bytes := asciiText (hexEncode (k.md5 s).1)

def txPasswordMessage (env : Env) (password : Bytes) : Op Unit := do
  send (.passwordMessage password)
  writeBuffer env

def protocolVersion30 : UInt32 := 196608

def protocolVersion32 : UInt32 := 196610

def parseProtocolVersion (s : String) : Except Error UInt32 :=
  if s = "" ∨ s = "3.0" then .ok protocolVersion30
  else if s = "3.2" ∨ s = "latest" then .ok protocolVersion32
  else .error (.errorf "invalid protocol version: %q" [s])

namespace Config

variable (cfg : Config)

def scramConfig (tls : Option (List Certificate)) : ScramConfig where
  password := cfg.password
  channelBinding := cfg.channelBinding
  tls := tls

def digestedPassword (k : Crypto) (salt : Bytes) : Bytes :=
  ascii "md5" ++ hexMD5 k (hexMD5 k (cfg.password ++ cfg.user) ++ salt)

/-- Whether an offer of SASL mechanisms is answered with an OAuth token. -/
def usesOAuth (authMechanisms : List Bytes) : Bool :=
  authMechanisms.contains (ascii "OAUTHBEARER") && cfg.oauthTokenProvider.isSome

end Config

structure Attempt where
  platform : ConnectPlatform
  config : Config
  /-- The peer certificates when the network connection is a TLS one. -/
  tls : Option (List Certificate)
  ignoreNotPreferredErr : Bool
  requireAuthPolicy : RequireAuth
  minProtocolVersion : UInt32

namespace Attempt

variable (a : Attempt)

def requireAuthFail {α : Type} (err : Option Error) : Op α :=
  throw (perDialConnectError "require_auth check failed" err)

def checkAuth (m : AuthMethod) : Op Unit :=
  match a.requireAuthPolicy.check m with
  | some err => requireAuthFail (some err)
  | none => pure ()

/-- A password, or the digest of one, if the policy permits the method. -/
def passwordAuth (m : AuthMethod) (password : Bytes) : Op Unit := do
  a.checkAuth m
  orFail "failed to write password message" (txPasswordMessage a.platform.env password)

def saslAuth (authMechanisms : List Bytes) : Op Unit :=
  if a.config.usesOAuth authMechanisms then do
    a.checkAuth .oauth
    orFail "failed SASL auth" (oauthAuth a.platform a.config)
  else do
    a.checkAuth .scramSHA256
    orFail "failed SASL auth"
      (scramAuth a.platform.toPlatform (a.config.scramConfig a.tls) authMechanisms)

/-- The end of the loop: the connection is idle and the application may look at it. -/
def validate : Op Unit := do
  modify fun c => { c with status := .idle }
  match a.config.validateConnect with
  | none => pure ()
  | some validateConnect => do
    let c ← get
    match validateConnect c.inbox with
    | .valid => pure ()
    | .notPreferred err =>
      if a.ignoreNotPreferredErr then pure ()
      else throw (perDialConnectError "ValidateConnect failed" (some err))
    | .invalid err => throw (perDialConnectError "ValidateConnect failed" (some err))

/-- Authentication is complete only if the client took part in it, when that is required. -/
def acceptOk (clientFinishedAuth : Bool) : Op Unit :=
  if a.requireAuthPolicy.authRequired ∧ ¬ clientFinishedAuth then
    requireAuthFail (a.requireAuthPolicy.check .none)
  else pure ()

def checkVersion (newestMinorProtocol : UInt32) : Op Unit :=
  if (protocolVersion30 &&& 0xFFFF0000) ||| newestMinorProtocol < a.minProtocolVersion then
    throw (perDialConnectError "server protocol version too low" none)
  else pure ()

/-- Do a step and go on, with the new value of `clientFinishedAuth`. -/
def andContinue (clientFinishedAuth : Bool) (x : Op Unit) : Op (Bool ⊕ Unit) := do
  x
  pure (.inl clientFinishedAuth)

/-- One message. The loop goes on with the new value of `clientFinishedAuth`, or returns. -/
def handleMessage (clientFinishedAuth : Bool) (msg : BackendMessage) : Op (Bool ⊕ Unit) :=
  match msg with
  | .backendKeyData processID secretKey =>
    andContinue clientFinishedAuth
      (modify fun c => { c with pid := processID, secretKey := secretKey })
  | .authenticationOk => andContinue clientFinishedAuth (a.acceptOk clientFinishedAuth)
  | .authenticationCleartextPassword =>
    andContinue true (a.passwordAuth .password a.config.password)
  | .authenticationMD5Password salt =>
    andContinue true (a.passwordAuth .md5 (a.config.digestedPassword a.platform.crypto salt))
  | .authenticationSASL authMechanisms => andContinue true (a.saslAuth authMechanisms)
  | .authenticationGSS =>
    andContinue true do
      a.checkAuth .gss
      orFail "failed GSS auth" (gssAuth a.platform a.config)
  | .readyForQuery _ => do
    a.validate
    pure (.inr ())
  | .parameterStatus _ _ | .noticeResponse _ => pure (.inl clientFinishedAuth)
  | .negotiateProtocolVersion newestMinorProtocol =>
    andContinue clientFinishedAuth (a.checkVersion newestMinorProtocol)
  | .errorResponse err => throw (perDialConnectError "server error" (some (.pgError err)))
  | _ => throw (perDialConnectError "received unexpected message" none)

def receiveError : Error → Error
  | .pgError err => perDialConnectError "server error" (some (.pgError err))
  | err => perDialConnectError "failed to receive message" (some err)

def round (clientFinishedAuth : Bool) : Op (Bool ⊕ Unit) := do
  let msg ← (receiveMessage a.platform.env).adaptExcept receiveError
  a.handleMessage clientFinishedAuth msg

/-! ## Every round reads a message -/

theorem checkAuth_reads (m : AuthMethod) : Reads 0 (a.checkAuth m) := by
  unfold checkAuth
  split
  · exact .throw
  · exact .pure

theorem rxSASLContinue_reads (env : Env) : Reads 1 (rxSASLContinue env) := by
  refine (receiveMessage_reads env).bind (n := 0) fun msg => ?_
  cases msg with
  | authenticationSASLContinue data => exact .pure
  | _ => exact .throw

theorem rxSASLFinal_reads (env : Env) : Reads 1 (rxSASLFinal env) := by
  refine (receiveMessage_reads env).bind (n := 0) fun msg => ?_
  cases msg with
  | authenticationSASLFinal data => exact .pure
  | _ => exact Reads.throw

theorem scramAuth_reads (p : Platform) (cfg : ScramConfig) (ms : List Bytes) :
    Reads 0 (scramAuth p cfg ms) := by
  refine Reads.get_bind fun c => Reads.ofExcept.bind (m := 0) (n := 0) fun sc => ?_
  refine ((send_reads _).bind fun _ => (writeBuffer_reads _).bind fun _ =>
    (rxSASLContinue_reads _).bind fun _ => Reads.ofExcept.bind fun _ =>
    (send_reads _).bind fun _ => (writeBuffer_reads _).bind fun _ =>
    (rxSASLFinal_reads _).bind fun _ => .ofExcept).weaken (Nat.zero_le _)

theorem oauthAuth_reads (p : ConnectPlatform) (cfg : Config) : Reads 0 (oauthAuth p cfg) := by
  unfold oauthAuth
  split
  · exact .throw
  · refine .get_bind fun c => ?_
    refine (Reads.ofExcept.adaptExcept.bind fun _ => (send_reads _).bind fun _ =>
      (writeBuffer_reads _).bind fun _ => (receiveMessage_reads _).bind (n := 0) fun msg => ?_).weaken
      (Nat.zero_le _)
    cases msg with
    | authenticationOk => exact Reads.pure
    | authenticationSASLContinue data =>
      show Reads 0 (match p.unmarshalStatus data with
        | .error err => throw _
        | .ok status => throw _)
      cases p.unmarshalStatus data <;> exact .throw
    | _ => exact .throw

theorem gssAuth_reads (p : ConnectPlatform) (cfg : Config) : Reads 0 (gssAuth p cfg) := by
  unfold gssAuth
  split
  · exact .throw
  · exact Reads.ofExcept.bind fun cli => Reads.ofExcept.bind fun _ =>
      Reads.loop (L := gssLoop p.env cli)
        (fun st => (gssRound_reads _ cli st).weaken (Nat.zero_le _)) _

theorem andContinue_reads {b : Bool} {x : Op Unit} (h : Reads 0 x) : Reads 0 (andContinue b x) :=
    h.bind fun _ => .pure

theorem passwordAuth_reads (m : AuthMethod) (password : Bytes) :
    Reads 0 (a.passwordAuth m password) :=
  (a.checkAuth_reads m).bind fun _ => ((send_reads _).bind fun _ => writeBuffer_reads _).adaptExcept

theorem saslAuth_reads (ms : List Bytes) : Reads 0 (a.saslAuth ms) := by
  unfold saslAuth
  split
  · exact (a.checkAuth_reads _).bind fun _ => (oauthAuth_reads _ _).adaptExcept
  · exact (a.checkAuth_reads _).bind fun _ => (scramAuth_reads _ _ _).adaptExcept

theorem validate_reads : Reads 0 a.validate := by
  refine .bind (m := 0) (n := 0) (.modify fun _ => rfl) fun _ => ?_
  split
  · exact .pure
  · refine .get_bind fun c => ?_
    split
    · exact .pure
    · split
      · exact .pure
      · exact .throw
    · exact .throw

theorem acceptOk_reads (b : Bool) : Reads 0 (a.acceptOk b) := by
  unfold acceptOk
  split
  · exact .throw
  · exact .pure

theorem checkVersion_reads (v : UInt32) : Reads 0 (a.checkVersion v) := by
  unfold checkVersion
  split
  · exact .throw
  · exact .pure

theorem handleMessage_reads (b : Bool) (msg : BackendMessage) : Reads 0 (a.handleMessage b msg) := by
  cases msg with
  | backendKeyData processID secretKey => exact andContinue_reads (.modify fun _ => rfl)
  | authenticationOk => exact andContinue_reads (a.acceptOk_reads b)
  | authenticationCleartextPassword => exact andContinue_reads (a.passwordAuth_reads _ _)
  | authenticationMD5Password salt => exact andContinue_reads (a.passwordAuth_reads _ _)
  | authenticationSASL ms => exact andContinue_reads (a.saslAuth_reads ms)
  | authenticationGSS =>
    exact andContinue_reads ((a.checkAuth_reads _).bind fun _ => (gssAuth_reads _ _).adaptExcept)
  | readyForQuery txStatus => exact a.validate_reads.bind fun _ => .pure
  | negotiateProtocolVersion v => exact andContinue_reads (a.checkVersion_reads v)
  | parameterStatus name value => exact .pure
  | noticeResponse notice => exact .pure
  | _ => exact .throw

theorem round_reads (b : Bool) : Reads 1 (a.round b) :=
  (receiveMessage_reads _).adaptExcept.bind fun msg => a.handleMessage_reads b msg

def loop : Loop PgConn Error Bool Unit where
  body := a.round
  measure := PgConn.unread
  progress b _ _ _ h := (a.round_reads b).progress h

end Attempt

def startupParameters (cfg : Config) : List (Bytes × Bytes) :=
  let parameters := cfg.runtimeParams.insert (ascii "user") cfg.user
  let parameters :=
    if cfg.database ≠ [] then parameters.insert (ascii "database") cfg.database else parameters
  parameters.entries.map fun e => (e.1, e.2)

/-- One connection attempt to a single host, once the network connection is made. -/
def connectOne (p : ConnectPlatform) (cfg : Config) (tls : Option (List Certificate))
    (ignoreNotPreferredErr : Bool) : Op Unit := do
  let maxProtocolVersion ←
    orFail "invalid max_protocol_version" (ofExcept (parseProtocolVersion cfg.maxProtocolVersion))
  let minProtocolVersion ←
    orFail "invalid min_protocol_version" (ofExcept (parseProtocolVersion cfg.minProtocolVersion))
  modify fun c => { c with parameterStatuses := ∅, status := .connecting }
  orFail "failed to write startup message" do
    send (.startupMessage maxProtocolVersion (startupParameters cfg))
    writeBuffer p.env
  let requireAuthPolicy ← orFail "invalid require_auth" (ofExcept (parseRequireAuth cfg.requireAuth))
  let a : Attempt :=
    { platform := p, config := cfg, tls, ignoreNotPreferredErr, requireAuthPolicy, minProtocolVersion }
  a.loop.run false

/-- A new connection to a server that will send these messages and then close. -/
def dialed (msgs : List Incoming) : PgConn := { peer := fun _ _ => [], inbox := msgs }

end Pgx.Connect
