import Pgx.Connect.ChannelBinding

/-!
# SCRAM, both sides

The server of RFC 5802 and RFC 7677, as far as the client meets it, and the
conversation of the client with it. The server works on the bytes it is sent:
it parses them, rebuilds the auth message from them, and holds two keys and not
the password.
-/
namespace Pgx.Connect

open Pgx.Go Pgx.Wire Pgx.Conn Pgx.Effect List

/-- The text before the first comma and the text after it. -/
def cutComma (buf : Bytes) : Option (Bytes × Bytes) :=
  (indexByte comma buf).map fun i => (buf.take i, buf.drop (i + 1))

theorem cutComma_append {a : Bytes} (h : comma ∉ a) (b : Bytes) :
    cutComma (a ++ comma :: b) = some (a, b) := by
  unfold cutComma
  rw [indexByte_append h]
  simp

def stripTag (tag buf : Bytes) : Option Bytes :=
  if tag.isPrefixOf buf then some (buf.drop tag.length) else none

theorem stripTag_append (tag b : Bytes) : stripTag tag (tag ++ b) = some b := by
  have hp : tag.isPrefixOf (tag ++ b) = true := isPrefixOf_iff_prefix.mpr (prefix_append tag b)
  unfold stripTag
  rw [if_pos hp, drop_left]

/-! ## The server -/

structure Credentials where
  storedKey : Bytes
  serverKey : Bytes
  salt : Bytes
  iterations : Nat

def credentials (k : Crypto) (password salt : Bytes) (iterations : Nat) : Credentials :=
  let saltedPassword := (k.pbkdf2 password salt iterations).1
  let clientKey := (k.hmac saltedPassword (ascii "Client Key")).1
  { storedKey := (k.sha256 clientKey).1
    serverKey := (k.hmac saltedPassword (ascii "Server Key")).1
    salt
    iterations }

structure RfcServer where
  user : Credentials
  nonce : Bytes
  /-- The channel binding data of the connection, when the server supports channel binding. -/
  binding : Option Bytes

/-- What the server has learned from the first message. -/
structure Session where
  cbindFlag : Bytes
  gs2Header : Bytes
  clientFirstBare : Bytes
  clientNonce : Bytes
  deriving DecidableEq

/-- The first message of the client, taken apart. -/
def parseFirst (buf : Bytes) : Option Session := do
  let (flag, rest) ← cutComma buf
  let (authzid, bare) ← cutComma rest
  let username ← stripTag (ascii "n=") bare
  let (_, rest) ← cutComma username
  let nonce ← stripTag (ascii "r=") rest
  pure
    { cbindFlag := flag
      gs2Header := flag ++ [comma] ++ authzid ++ [comma]
      clientFirstBare := bare
      clientNonce := ((cutComma nonce).map Prod.fst).getD nonce }

structure ClientFinal where
  cbindInput : Bytes
  nonce : Bytes
  proof : Bytes
  withoutProof : Bytes

def parseFinal (buf : Bytes) : Option ClientFinal := do
  let rest ← stripTag (ascii "c=") buf
  let (cbind, rest) ← cutComma rest
  let rest ← stripTag (ascii "r=") rest
  let (nonce, rest) ← cutComma rest
  let proof ← stripTag (ascii "p=") rest
  let cbindInput ← Base64.decodeString cbind
  let proof ← Base64.decodeString proof
  pure { cbindInput, nonce, proof, withoutProof := buf.take (buf.length - (rest.length + 1)) }

namespace RfcServer

variable (k : Crypto) (srv : RfcServer)

def mechanisms : List Bytes :=
  if srv.binding.isSome then [scramSHA256PlusName, scramSHA256Name] else [scramSHA256Name]

/-- Section 6 of RFC 5802: the flag fits the mechanism, and a client that believes the
server not to support channel binding is mistaken about a server that does. -/
def negotiate (mechanism : Bytes) (s : Session) : Bool :=
  if s.cbindFlag = ascii "n" then mechanism = scramSHA256Name
  else if s.cbindFlag = ascii "y" then mechanism = scramSHA256Name ∧ srv.binding.isNone
  else s.cbindFlag = ascii "p=tls-server-end-point" ∧ mechanism = scramSHA256PlusName ∧
    srv.binding.isSome

def fullNonce (s : Session) : Bytes := s.clientNonce ++ srv.nonce

def serverFirst (s : Session) : Bytes :=
  ascii "r=" ++ srv.fullNonce s ++ ascii ",s=" ++ Base64.encode true srv.user.salt ++ ascii ",i=" ++
    asciiText (formatUint srv.user.iterations)

/-- The auth message, from the bytes on the wire. -/
def authMessage (s : Session) (m : ClientFinal) : Bytes :=
  s.clientFirstBare ++ [comma] ++ srv.serverFirst s ++ [comma] ++ m.withoutProof

/-- The channel binding input that the client has to echo. -/
def cbindInput (s : Session) : Bytes :=
  if s.cbindFlag = ascii "n" ∨ s.cbindFlag = ascii "y" then s.gs2Header
  else s.gs2Header ++ srv.binding.getD []

/-- Whether the proof shows knowledge of the client key. -/
def verifyProof (authMessage proof : Bytes) : Bool :=
  let clientSignature := (k.hmac srv.user.storedKey authMessage).1
  proof.length = 32 ∧ (k.sha256 (xorBytes proof clientSignature)).1 = srv.user.storedKey

/-- The last message of the server, which proves that it knows the server key. -/
def serverFinal (authMessage : Bytes) : Bytes :=
  ascii "v=" ++ Base64.encode true (k.hmac srv.user.serverKey authMessage).1

/-- The answer to the last message of the client, if it is accepted. -/
def receiveFinal (s : Session) (clientFinal : Bytes) : Option Bytes := do
  let m ← parseFinal clientFinal
  if m.cbindInput = srv.cbindInput s ∧ m.nonce = srv.fullNonce s ∧
      srv.verifyProof k (srv.authMessage s m) m.proof then
    some (srv.serverFinal k (srv.authMessage s m))
  else none

/-- The whole exchange, from the two messages of the client. -/
def accepts (mechanism clientFirst clientFinal : Bytes) : Bool :=
  match parseFirst clientFirst with
  | none => false
  | some s => srv.negotiate mechanism s ∧ (srv.receiveFinal k s clientFinal).isSome

end RfcServer

namespace ScramClient

def cbindFlag (sc : ScramClient) : Bytes :=
  if sc.authMechanism = scramSHA256PlusName then ascii "p=tls-server-end-point"
  else if sc.hasTLS then ascii "y"
  else ascii "n"

theorem gs2Header_eq (sc : ScramClient) : sc.gs2Header = sc.cbindFlag ++ [comma, comma] := by
  unfold gs2Header cbindFlag
  split
  · decide
  · split <;> decide

theorem comma_not_mem_cbindFlag (sc : ScramClient) : comma ∉ sc.cbindFlag := by
  unfold cbindFlag
  split
  · decide
  · split <;> decide

/-- What the server learns from the first message. -/
def session (sc : ScramClient) : Session where
  cbindFlag := sc.cbindFlag
  gs2Header := sc.gs2Header
  clientFirstBare := sc.clientFirstMessage.2.clientFirstMessageBare
  clientNonce := sc.clientNonce

theorem parseFirst_clientFirstMessage {sc : ScramClient} (h : comma ∉ sc.clientNonce) :
    parseFirst sc.clientFirstMessage.1 = some sc.session := by
  have hfirst : sc.clientFirstMessage.1 = sc.cbindFlag ++ comma :: ([] ++ comma ::
      (ascii "n=" ++ ([] ++ comma :: (ascii "r=" ++ sc.clientNonce)))) := by
    show sc.gs2Header ++ (ascii "n=,r=" ++ sc.clientNonce) = _
    rw [gs2Header_eq, show ascii "n=,r=" = ascii "n=" ++ comma :: ascii "r=" by decide]
    simp
  have hnonce : cutComma sc.clientNonce = none := by
    unfold cutComma
    rw [indexByte_eq_none h]
    rfl
  unfold parseFirst
  rw [hfirst, cutComma_append sc.comma_not_mem_cbindFlag]
  simp only [Option.bind_eq_bind, Option.bind_some]
  rw [cutComma_append not_mem_nil]
  simp only [Option.bind_some, stripTag_append]
  rw [cutComma_append not_mem_nil]
  simp only [Option.bind_some, stripTag_append, hnonce]
  simp [session, gs2Header_eq, clientFirstMessage,
    show ascii "n=,r=" = ascii "n=" ++ comma :: ascii "r=" by decide]

end ScramClient

namespace ScramClient

theorem splitServerFirst_append {nonce salt : Bytes} (hnonce : comma ∉ nonce) (hsalt : comma ∉ salt)
    (iterations : Bytes) :
    splitServerFirst (ascii "r=" ++ nonce ++ ascii ",s=" ++ salt ++ ascii ",i=" ++ iterations) =
      .ok (nonce, salt, iterations) := by
  have hm : ascii "r=" ++ nonce ++ ascii ",s=" ++ salt ++ ascii ",i=" ++ iterations =
      114 :: 61 ::
        (nonce ++ comma :: (115 :: 61 :: (salt ++ comma :: (105 :: 61 :: iterations)))) := by
    rw [show ascii "r=" = [114, 61] by decide, show ascii ",s=" = comma :: [115, 61] by decide,
      show ascii ",i=" = comma :: [105, 61] by decide]
    simp
  unfold splitServerFirst
  rw [hm]
  simp [show ascii "r=" = [114, 61] by decide, show ascii "s=" = [115, 61] by decide,
    show ascii "i=" = [105, 61] by decide, indexByte_append hnonce, indexByte_append hsalt]

/-- The nonce is what stands between the tag and the first comma. -/
theorem splitServerFirst_nonce {m nonce salt iterations : Bytes}
    (h : splitServerFirst m = .ok (nonce, salt, iterations)) :
    comma ∉ nonce ∧ ∃ tail, m = ascii "r=" ++ nonce ++ comma :: tail := by
  unfold splitServerFirst at h
  by_cases hr : (ascii "r=").isPrefixOf m = true
  · obtain ⟨buf, rfl⟩ := isPrefixOf_iff_prefix.mp hr
    have hdrop : (ascii "r=" ++ buf).drop 2 = buf := by
      rw [show ascii "r=" = [114, 61] by decide]
      rfl
    simp only [hr, Bool.not_true, Bool.false_eq_true, if_false, hdrop] at h
    cases hidx : indexByte comma buf with
    | none => simp [hidx] at h
    | some idx =>
      obtain ⟨hfree, hsplit⟩ := indexByte_some hidx
      simp only [hidx] at h
      have hn : nonce = buf.take idx := by
        split at h
        · cases h
        · split at h
          · cases h
          · split at h
            · cases h
            · simpa using (congrArg Prod.fst (Except.ok.inj h)).symm
      rw [hn]
      refine ⟨hfree, buf.drop (idx + 1), ?_⟩
      rw [append_assoc, ← hsplit]
  · simp [hr] at h

theorem parseIterations_formatUint {n : Nat} (hpos : 1 ≤ n) (hmax : n ≤ 10000000) :
    parseIterations (asciiText (formatUint n)) = .ok (n : Int) := by
  unfold parseIterations
  rw [atoi_formatUint (by omega)]
  have hmax' : ¬ (n : Int) > maxScramIterations := by
    unfold maxScramIterations
    omega
  have hpos' : ¬ (n : Int) ≤ 0 := by omega
  simp only [if_neg hpos', if_neg hmax']

/-- A first message that is accepted extends the client's nonce. -/
theorem recvServerFirstMessage_nonce {sc sc' : ScramClient} {m : Bytes}
    (h : sc.recvServerFirstMessage m = .ok sc') :
    ∃ suffix tail, suffix ≠ [] ∧ comma ∉ suffix ∧
    m = ascii "r=" ++ (sc.clientNonce ++ suffix) ++ comma :: tail := by
  unfold recvServerFirstMessage at h
  cases hsplit : splitServerFirst m with
  | error err => simp [hsplit] at h
  | ok parts =>
    obtain ⟨nonce, saltStr, iterationsStr⟩ := parts
    obtain ⟨hfree, tail, rfl⟩ := splitServerFirst_nonce hsplit
    simp only [hsplit] at h
    cases hsalt : Base64.decodeString saltStr with
    | none => simp [hsalt] at h
    | some salt =>
      cases hiter : parseIterations iterationsStr with
      | error err => simp [hsalt, hiter] at h
      | ok iterations =>
        simp only [hsalt, hiter] at h
        by_cases hp : sc.clientNonce.isPrefixOf nonce = true
        · obtain ⟨suffix, rfl⟩ := isPrefixOf_iff_prefix.mp hp
          refine ⟨suffix, tail, ?_, fun hmem => hfree (mem_append_right _ hmem), rfl⟩
          rintro rfl
          rw [append_nil] at hp h
          simp [hp] at h
        · simp [hp] at h

end ScramClient

theorem xorBytes_xorBytes {a b : Bytes} (h : a.length = b.length) :
    xorBytes (xorBytes a b) b = a := by
  apply ext_getElem
  · simp [xorBytes, h]
  · intro i h₁ h₂
    simp only [xorBytes, getElem_zipWith, UInt8.xor_assoc, UInt8.xor_self, UInt8.xor_zero]

namespace ScramClient

variable (k : Crypto) (sc : ScramClient)

def clientProof : Bytes :=
  let saltedPassword := (k.pbkdf2 sc.password sc.salt sc.iterations.toNat).1
  let clientKey := (k.hmac saltedPassword (ascii "Client Key")).1
  xorBytes clientKey (k.hmac (k.sha256 clientKey).1 (sc.clientFinalMessage k).2.authMessage).1

theorem parseFinal_clientFinalMessage (h : comma ∉ sc.clientAndServerNonce) :
    parseFinal (sc.clientFinalMessage k).1 = some
      { cbindInput := sc.channelBindInput
        nonce := sc.clientAndServerNonce
        proof := sc.clientProof k
        withoutProof := sc.clientFinalMessageWithoutProof } := by
  have hcbind : comma ∉ Base64.encode true sc.channelBindInput := fun hm =>
    (Base64.mem_encode hm).2.2 rfl
  have hfinal : (sc.clientFinalMessage k).1 = sc.clientFinalMessageWithoutProof ++ comma ::
      (ascii "p=" ++ Base64.encode true (sc.clientProof k)) := by
    show sc.clientFinalMessageWithoutProof ++ ascii ",p=" ++ Base64.encode true (sc.clientProof k) = _
    rw [show ascii ",p=" = comma :: ascii "p=" by decide]
    simp
  have hwithout : sc.clientFinalMessageWithoutProof = ascii "c=" ++
      (Base64.encode true sc.channelBindInput ++ comma ::
        (ascii "r=" ++ sc.clientAndServerNonce)) := by
    unfold clientFinalMessageWithoutProof
    rw [show ascii ",r=" = comma :: ascii "r=" by decide]
    simp
  have htake : (sc.clientFinalMessage k).1.take ((sc.clientFinalMessage k).1.length -
      ((ascii "p=" ++ Base64.encode true (sc.clientProof k)).length + 1)) =
      sc.clientFinalMessageWithoutProof := by
    rw [hfinal, length_append, length_cons, Nat.add_sub_cancel, take_left]
  have hparts : (sc.clientFinalMessage k).1 = ascii "c=" ++ (Base64.encode true sc.channelBindInput ++
      comma :: (ascii "r=" ++ (sc.clientAndServerNonce ++ comma ::
        (ascii "p=" ++ Base64.encode true (sc.clientProof k))))) := by
    rw [hfinal, hwithout]
    simp
  unfold parseFinal
  rw [hparts, stripTag_append]
  simp only [Option.bind_eq_bind, Option.bind_some]
  rw [cutComma_append hcbind]
  simp only [Option.bind_some, stripTag_append]
  rw [cutComma_append h]
  simp only [Option.bind_some, stripTag_append, Base64.decodeString_encode]
  rw [← hparts, htake]
  rfl

theorem recvServerFinalMessage_eq (v : Bytes) : sc.recvServerFinalMessage k v = .ok () ↔
      v = ascii "v=" ++ computeServerSignature k sc.saltedPassword sc.authMessage := by
  unfold recvServerFinalMessage
  constructor
  · intro h
    by_cases hv : (ascii "v=").isPrefixOf v = true
    · obtain ⟨signature, rfl⟩ := isPrefixOf_iff_prefix.mp hv
      by_cases hs : (ascii "v=" ++ signature).drop 2 =
        computeServerSignature k sc.saltedPassword sc.authMessage
      · rw [← hs, show ascii "v=" = [118, 61] by decide]
        rfl
      · simp [hv, hs] at h
    · simp [hv] at h
  · rintro rfl
    simp [show ascii "v=" = [118, 61] by decide]

end ScramClient

end Pgx.Connect
