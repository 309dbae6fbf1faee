import KafkaJs.Data.Escaping
import KafkaJs.Errors
import KafkaJs.Execution.Command
import KafkaJs.Utils.Number

/-!
# SCRAM

The client of `broker/saslAuthenticator/scram.js` against any server. The state of a run is the
messages that the client has sent, and a server answers to these. Of the password's derivation, the
MACs and the hash nothing is assumed.

`checked_authenticate` says what the client has checked before it proves that it knows the password
and before it takes the server for authenticated. Neither a nonce to which the server has added
nothing nor a count with other text behind it is refused: `not_asClaimed`.
-/

namespace KafkaJs.Network

open Data Execution

namespace Scram

/-! ## The messages of the server -/

/-- `,`. -/
def comma : UInt16 := 0x2C

/-- `=`. -/
def equals : UInt16 := 0x3D

/-- The attributes that `ENTRY_REGEX` knows. -/
inductive Attribute where
  | r | s | i | e | v
  deriving DecidableEq

/-- The attribute with the name. -/
def Attribute.ofUnit (unit : UInt16) : Option Attribute :=
  if unit = 0x72 then some .r
  else if unit = 0x73 then some .s
  else if unit = 0x69 then some .i
  else if unit = 0x65 then some .e
  else if unit = 0x76 then some .v
  else none

/-- The characters that `.` does not match. -/
def isLineTerminator (unit : UInt16) : Bool := unit ∈ [0x0A, 0x0D, 0x2028, 0x2029]

/-- `str.match(/^([rsiev])=(.*)$/)`. -/
def matchEntry : Text → Option (Attribute × Text)
  | key :: separator :: value =>
      if separator = equals ∧ value.all (! isLineTerminator ·) then
        (Attribute.ofUnit key).map fun key => (key, value)
      else none
  | _ => none

/-- The object that `parse` returns. -/
structure ClientMessageResponse where
  original : Text
  r : Option Text := none
  s : Option Text := none
  i : Option Text := none
  e : Option Text := none
  v : Option Text := none
  deriving DecidableEq

/-- `{ ...obj, [entry[0]]: entry[1] }`. -/
def ClientMessageResponse.set (response : ClientMessageResponse) :
    Attribute × Text → ClientMessageResponse
  | (.r, value) => { response with r := some value }
  | (.s, value) => { response with s := some value }
  | (.i, value) => { response with i := some value }
  | (.e, value) => { response with e := some value }
  | (.v, value) => { response with v := some value }

/-- An error of the language. -/
def typeError (message : String) : KafkaError :=
  { name := .typeError, message := message, retriable := none }

/-- The attributes of a text, the last one of each name. -/
def processed (original : Text) : Except KafkaError ClientMessageResponse := do
  let entries ← (original.splitOn comma).mapM fun str =>
    match matchEntry str with
    | none => .error (typeError "object null is not iterable")
    | some entry => .ok entry
  .ok (entries.foldl ClientMessageResponse.set { original := original })

/-- `parse` of `protocol/sasl/scram/firstMessage/response.js`. There is no data where the server
sent the length of `null`. -/
def parse (data : Option Bytes) : Except KafkaError ClientMessageResponse :=
  match data with
  | none => .error (typeError "Cannot read properties of null (reading 'toString')")
  | some data => processed (Text.ofUtf8 data)

/-! ## The client -/

/-- `str.replace(/[unit]/g, replacement)`. -/
def replace (unit : UInt16) (replacement : String) (str : Text) : Text :=
  str.flatMap fun other => if other = unit then Text.ofString replacement else [other]

/-- `sanitizeString`. -/
def sanitizeString (str : Text) : Text := replace comma "=2C" (replace equals "=3D" str)

/-- The digits of base 64. -/
def base64Digit (value : Nat) : UInt16 :=
  (Text.ofString "ABCDEFGHIJKLMNOPQRSTUVWXYZabcdefghijklmnopqrstuvwxyz0123456789+/").getD
    (value % 64) equals

/-- `Buffer.from(bytes).toString('base64')`. -/
def encode64 : Bytes → Text
  | [] => []
  | [a] =>
      let group := a.toNat * 2 ^ 16
      [base64Digit (group / 2 ^ 18), base64Digit (group / 2 ^ 12), equals, equals]
  | [a, b] =>
      let group := a.toNat * 2 ^ 16 + b.toNat * 2 ^ 8
      [base64Digit (group / 2 ^ 18), base64Digit (group / 2 ^ 12), base64Digit (group / 2 ^ 6),
        equals]
  | a :: b :: c :: bytes =>
      let group := a.toNat * 2 ^ 16 + b.toNat * 2 ^ 8 + c.toNat
      base64Digit (group / 2 ^ 18) :: base64Digit (group / 2 ^ 12) ::
        base64Digit (group / 2 ^ 6) :: base64Digit group :: encode64 bytes

/-- `type` of a digest definition. -/
inductive DigestType where
  | sha256 | sha512

/-- The type in capitals. -/
def DigestType.toUpperCase : DigestType → String
  | .sha256 => "SHA256"
  | .sha512 => "SHA512"

/-- An entry of `DIGESTS`. -/
structure DigestDefinition where
  length : Nat
  type : DigestType
  minIterations : Int

/-- `DIGESTS.SHA256`. -/
def sha256 : DigestDefinition := ⟨32, .sha256, 4096⟩

/-- `DIGESTS.SHA512`. -/
def sha512 : DigestDefinition := ⟨64, .sha512, 4096⟩

/-- What the client calls of the runtime: `Buffer.from(str, 'base64')`, and `pbkdf2`, `createHash`
and `createHmac` of its crypto module. The iterations may be `NaN`. -/
structure Crypto where
  fromBase64 : Text → Bytes
  pbkdf2 (password : Text) (salt : Bytes) (iterations : Option Int) (length : Nat)
    (type : DigestType) : Except KafkaError Bytes
  createHash (type : DigestType) (data : Bytes) : Bytes
  createHmac (type : DigestType) (key : Bytes) (data : Text) : Bytes

/-- `xor`. -/
def xor (left right : Bytes) : Except KafkaError Bytes :=
  if left.length ≠ right.length then
    .error { name := .kafkaJSNonRetriableError, message := "Buffers must be of the same length",
             retriable := some false }
  else .ok (left.zipWith (· ^^^ ·) right)

end Scram

open Scram

/-- The client. -/
structure Scram where
  username : Option Text
  password : Option Text
  digestDefinition : DigestDefinition
  crypto : Crypto
  currentNonce : Text

namespace Scram

/-- `PREFIX`. -/
def PREFIX (scram : Scram) : String :=
  "SASL SCRAM " ++ scram.digestDefinition.type.toUpperCase ++ " authentication"

/-- `KafkaJSSASLAuthenticationError`. -/
def authenticationError (message : String) : KafkaError :=
  { name := .kafkaJSSASLAuthenticationError, message := message, retriable := some false }

/-- `GS2_HEADER`. -/
def gs2Header : Text := Text.ofString "n,,"

/-- `H`. -/
def H (scram : Scram) (data : Bytes) : Bytes :=
  scram.crypto.createHash scram.digestDefinition.type data

/-- `HMAC`. -/
def HMAC (scram : Scram) (key : Bytes) (data : Text) : Bytes :=
  scram.crypto.createHmac scram.digestDefinition.type key data

/-- `encodedUsername`; that there is a username has been checked. -/
def encodedUsername (scram : Scram) : Text := sanitizeString (scram.username.getD [])

/-- `encodedPassword`; that there is a password has been checked. -/
def encodedPassword (scram : Scram) : Text := scram.password.getD []

/-- `firstMessageBare`. -/
def firstMessageBare (scram : Scram) : Text :=
  Text.ofString "n=" ++ scram.encodedUsername ++ Text.ofString ",r=" ++ scram.currentNonce

/-- An attribute in a template literal. -/
def inTemplate (value : Option Text) : Text := value.getD (Text.ofString "undefined")

/-- `parseInt(clientMessageResponse.i, 10)`. -/
def iterations (clientMessageResponse : ClientMessageResponse) : Option Int :=
  Number.parseInt (inTemplate clientMessageResponse.i)

/-- `finalMessageWithoutProof`. -/
def finalMessageWithoutProof (clientMessageResponse : ClientMessageResponse) : Text :=
  Text.ofString "c=" ++ encode64 gs2Header.toUtf8 ++ Text.ofString ",r=" ++
    inTemplate clientMessageResponse.r

/-- `authMessage`. -/
def authMessage (scram : Scram) (clientMessageResponse : ClientMessageResponse) : Text :=
  scram.firstMessageBare ++ [comma] ++ clientMessageResponse.original ++ [comma] ++
    finalMessageWithoutProof clientMessageResponse

/-- `saltPassword`. -/
def saltPassword (scram : Scram) (clientMessageResponse : ClientMessageResponse) :
    Except KafkaError Bytes :=
  match clientMessageResponse.s with
  | none => .error (typeError "The first argument must be of type string")
  | some s =>
      scram.crypto.pbkdf2 scram.encodedPassword (scram.crypto.fromBase64 s)
        (iterations clientMessageResponse) scram.digestDefinition.length
        scram.digestDefinition.type

/-- `clientKey`. -/
def clientKey (scram : Scram) (clientMessageResponse : ClientMessageResponse) :
    Except KafkaError Bytes := do
  let saltedPassword ← scram.saltPassword clientMessageResponse
  pure (scram.HMAC saltedPassword (Text.ofString "Client Key"))

/-- `serverKey`. -/
def serverKey (scram : Scram) (clientMessageResponse : ClientMessageResponse) :
    Except KafkaError Bytes := do
  let saltedPassword ← scram.saltPassword clientMessageResponse
  pure (scram.HMAC saltedPassword (Text.ofString "Server Key"))

/-- `clientSignature`. -/
def clientSignature (scram : Scram) (storedKey : Bytes)
    (clientMessageResponse : ClientMessageResponse) : Bytes :=
  scram.HMAC storedKey (scram.authMessage clientMessageResponse)

/-- `serverSignature`. -/
def serverSignature (scram : Scram) (serverKey : Bytes)
    (clientMessageResponse : ClientMessageResponse) : Text :=
  encode64 (scram.HMAC serverKey (scram.authMessage clientMessageResponse))

/-- `clientProof`. -/
def clientProof (scram : Scram) (clientMessageResponse : ClientMessageResponse) :
    Except KafkaError Text := do
  let clientKey ← scram.clientKey clientMessageResponse
  let storedKey := scram.H clientKey
  let proof ← xor clientKey (scram.clientSignature storedKey clientMessageResponse)
  pure (encode64 proof)

/-! ## The exchange -/

/-- A message of the client. -/
inductive Message where
  | first (clientFirstMessage : Text)
  | final (finalMessage : Text)
  deriving DecidableEq

/-- A server answers to the messages that it has received with the bytes of a response, or
`saslAuthenticate` throws. -/
abbrev Server := List Message → Except KafkaError (Option Bytes)

/-- The answer of the server, parsed. -/
def Server.respond (server : Server) (sent : List Message) :
    Except KafkaError ClientMessageResponse := server sent >>= parse

/-- `saslAuthenticate({ request, response })`. -/
def saslAuthenticate (server : Server) (message : Message) :
    Command (List Message) KafkaError ClientMessageResponse := do
  modify (· ++ [message])
  let sent ← get
  Command.ofExcept (server.respond sent)

/-- `sendClientFirstMessage`. -/
def sendClientFirstMessage (scram : Scram) (server : Server) :
    Command (List Message) KafkaError ClientMessageResponse :=
  saslAuthenticate server (.first (gs2Header ++ scram.firstMessageBare))

/-- `iterations < minIterations`, which is false of `NaN`. -/
def isLess (iterations : Option Int) (minIterations : Int) : Bool :=
  match iterations with
  | none => false
  | some iterations => iterations < minIterations

/-- `sendClientFinalMessage`. -/
def sendClientFinalMessage (scram : Scram) (server : Server)
    (clientMessageResponse : ClientMessageResponse) :
    Command (List Message) KafkaError ClientMessageResponse := do
  let iterations := iterations clientMessageResponse
  let minIterations := scram.digestDefinition.minIterations
  match clientMessageResponse.r with
  | none => throw (typeError "Cannot read properties of undefined (reading 'startsWith')")
  | some r =>
      if ¬ scram.currentNonce <+: r then
        throw (authenticationError (scram.PREFIX ++
          " failed: Invalid server nonce, it does not start with the client nonce"))
      else if isLess iterations minIterations then
        throw (authenticationError (scram.PREFIX ++ " failed: Requested iterations " ++
          toString (iterations.getD 0) ++ " is less than the minimum " ++ toString minIterations))
      else do
        let clientProof ← Command.ofExcept (scram.clientProof clientMessageResponse)
        saslAuthenticate server (.final (finalMessageWithoutProof clientMessageResponse ++
          Text.ofString ",p=" ++ clientProof))

/-- The checks of `authenticate` on the response to the final message. -/
def checkFinalResponse (scram : Scram)
    (clientMessageResponse finalResponse : ClientMessageResponse) : Except KafkaError Unit :=
  let error := finalResponse.e.getD []
  if error ≠ [] then
    .error { name := .error, message := String.ofList (Text.scalars error), retriable := none }
  else do
    let serverKey ← scram.serverKey clientMessageResponse
    let serverSignature := scram.serverSignature serverKey clientMessageResponse
    if finalResponse.v ≠ some serverSignature then
      .error { name := .error, message := "Invalid server signature in server final message",
               retriable := none }
    else .ok ()

/-- The body of `authenticate`. -/
def exchange (scram : Scram) (server : Server) : Command (List Message) KafkaError Unit := do
  let clientMessageResponse ← scram.sendClientFirstMessage server
  let finalResponse ← scram.sendClientFinalMessage server clientMessageResponse
  Command.ofExcept (scram.checkFinalResponse clientMessageResponse finalResponse)

/-- `authenticate`. -/
def authenticate (scram : Scram) (server : Server) : Command (List Message) KafkaError Unit :=
  if scram.username = none ∨ scram.password = none then
    throw (authenticationError (scram.PREFIX ++ ": Invalid username or password"))
  else
    tryCatch (scram.exchange server) fun error =>
      throw (authenticationError (scram.PREFIX ++ " failed: " ++ error.message))

/-- How the client ends, and the messages that it has sent. -/
def run (scram : Scram) (server : Server) : Except KafkaError Unit × List Message :=
  Command.exec (scram.authenticate server) []

/-! ## Usernames -/

/-- What `sanitizeString` writes for a character. -/
def escape (unit : UInt16) : Text :=
  if unit = equals then Text.ofString "=3D"
  else if unit = comma then Text.ofString "=2C"
  else [unit]

/-- The comma is replaced in what the first replacement leaves, which has added none. -/
theorem sanitizeString_eq (str : Text) : sanitizeString str = str.flatMap escape := by
  rw [sanitizeString, replace, replace, List.flatMap_assoc]
  refine List.flatMap_congr fun unit _ => ?_
  rw [escape]
  split
  · rfl
  · rw [List.flatMap_singleton]

/-- What a unit is escaped as. -/
theorem escape_cases (unit : UInt16) :
    unit = equals ∧ escape unit = [equals, 0x33, 0x44] ∨
      unit = comma ∧ escape unit = [equals, 0x32, 0x43] ∨
      unit ≠ equals ∧ unit ≠ comma ∧ escape unit = [unit] := by
  by_cases hequals : unit = equals
  · subst hequals
    exact Or.inl ⟨rfl, rfl⟩
  · by_cases hcomma : unit = comma
    · subst hcomma
      exact Or.inr (Or.inl ⟨rfl, rfl⟩)
    · exact Or.inr (Or.inr ⟨hequals, hcomma, by rw [escape, if_neg hequals, if_neg hcomma]⟩)

/-- No unit is escaped as nothing. -/
theorem escape_ne_nil (unit : UInt16) : escape unit ≠ [] := by
  rcases escape_cases unit with ⟨-, h⟩ | ⟨-, h⟩ | ⟨-, -, h⟩ <;>
    exact h ▸ List.cons_ne_nil _ _

/-- No escaped unit begins with another. -/
theorem escape_prefixFree : PrefixFree escape := by
  intro first second behind after h
  -- Two escapes differ in their second character, and nothing else starts with an equals sign.
  rcases escape_cases first with ⟨rfl, hfirst⟩ | ⟨rfl, hfirst⟩ | ⟨hequals, -, hfirst⟩ <;>
    rcases escape_cases second with ⟨rfl, hsecond⟩ | ⟨rfl, hsecond⟩ | ⟨hequals', -, hsecond⟩ <;>
    simp only [hfirst, hsecond] at h
  · rfl
  · exact absurd (List.cons.inj (List.cons.inj h).2).1 (by decide)
  · exact absurd (List.cons.inj h).1.symm hequals'
  · exact absurd (List.cons.inj (List.cons.inj h).2).1 (by decide)
  · rfl
  · exact absurd (List.cons.inj h).1.symm hequals'
  · exact absurd (List.cons.inj h).1 hequals
  · exact absurd (List.cons.inj h).1 hequals
  · exact (List.cons.inj h).1

/-- Different usernames are sent differently. -/
theorem sanitizeString_injective : Function.Injective sanitizeString := by
  intro first second h
  rw [sanitizeString_eq, sanitizeString_eq] at h
  exact escape_prefixFree.injective escape_ne_nil h

/-- A sanitized name has no comma. -/
theorem comma_notMem_sanitizeString (str : Text) : comma ∉ sanitizeString str := by
  rw [sanitizeString_eq, List.mem_flatMap]
  rintro ⟨unit, -, hmem⟩
  rcases escape_cases unit with ⟨-, h⟩ | ⟨-, h⟩ | ⟨-, hcomma, h⟩
  · exact absurd (h ▸ hmem) (by decide)
  · exact absurd (h ▸ hmem) (by decide)
  · rw [h] at hmem
    exact hcomma (List.mem_singleton.mp hmem).symm

/-- What follows an equals sign. -/
theorem after_equals {str after : Text} (h : equals :: after <:+ sanitizeString str) :
    Text.ofString "2C" <+: after ∨ Text.ofString "3D" <+: after := by
  rw [sanitizeString_eq] at h
  obtain ⟨unit, inner, outer, hcode, rfl⟩ := cons_suffix_flatMap h
  rcases escape_cases unit with ⟨-, hunit⟩ | ⟨-, hunit⟩ | ⟨hequals, -, hunit⟩
  · have hinner : inner = [0x33, 0x44] := by
      simpa [hunit, List.suffix_cons_iff, equals] using hcode
    exact Or.inr (hinner ▸ List.prefix_append _ outer)
  · have hinner : inner = [0x32, 0x43] := by
      simpa [hunit, List.suffix_cons_iff, equals] using hcode
    exact Or.inl (hinner ▸ List.prefix_append _ outer)
  · have hsame : equals = unit ∧ inner = [] := by
      simpa [hunit, List.suffix_cons_iff] using hcode
    exact absurd hsame.1.symm hequals

/-! ## What is checked before the proof -/

variable {scram : Scram} {server : Server} {response : ClientMessageResponse}

/-- The first message of the client. -/
def firstMessage (scram : Scram) : Message := .first (gs2Header ++ scram.firstMessageBare)

/-- The final message with a proof. -/
def finalMessage (response : ClientMessageResponse) (proof : Text) : Message :=
  .final (finalMessageWithoutProof response ++ Text.ofString ",p=" ++ proof)

/-- The client has proved that it knows the password, after its checks of the response to its first
message. -/
structure Proved (scram : Scram) (server : Server) (response : ClientMessageResponse)
    (sent : List Message) : Prop where
  first : server.respond [scram.firstMessage] = .ok response
  nonce : ∃ nonce, response.r = some nonce ∧ scram.currentNonce <+: nonce
  count : isLess (iterations response) scram.digestDefinition.minIterations = false
  sent : ∃ proof, scram.clientProof response = .ok proof ∧
    sent = [scram.firstMessage, finalMessage response proof]

/-- A final message is only sent after the checks. -/
def Guarded (scram : Scram) (server : Server) (sent : List Message) : Prop :=
  (∀ finalMessage, .final finalMessage ∉ sent) ∨ ∃ response, Proved scram server response sent

/-- The first message is no final one. -/
theorem guarded_first : Guarded scram server [scram.firstMessage] :=
  Or.inl fun _ hmem => by cases List.mem_singleton.mp hmem

/-- A final message with a proof is sent after the checks. -/
theorem Proved.guarded {sent : List Message} (h : Proved scram server response sent) :
    Guarded scram server sent := Or.inr ⟨response, h⟩

/-- A message is sent and the server responds. -/
theorem exec_saslAuthenticate (server : Server) (message : Message) (sent : List Message) :
    Command.exec (saslAuthenticate server message) sent =
      (server.respond (sent ++ [message]), sent ++ [message]) := rfl

/-- A message is sent, and the server answers to it and those before it. -/
theorem ensures_saslAuthenticate {message : Message} {sent : List Message} :
    Ensures (· = sent) (saslAuthenticate server message)
      (fun response after => after = sent ++ [message] ∧ server.respond after = .ok response)
      (fun _ after => after = sent ++ [message]) := by
  rintro _ rfl
  rw [exec_saslAuthenticate]
  cases hrespond : server.respond _ with
  | error error => rfl
  | ok response => exact ⟨rfl, hrespond⟩

/-- The first message is sent once. -/
theorem ensures_sendClientFirstMessage : Ensures (· = []) (scram.sendClientFirstMessage server)
    (fun response sent => sent = [scram.firstMessage] ∧ server.respond sent = .ok response)
    (fun _ sent => Guarded scram server sent) := by
  refine ensures_saslAuthenticate.imp (fun _ _ hsent => hsent) ?_
  rintro _ _ rfl
  exact guarded_first

/-- The final message is sent behind the checks of the response to the first one. -/
theorem ensures_sendClientFinalMessage
    (hfirst : server.respond [scram.firstMessage] = .ok response) :
    Ensures (· = [scram.firstMessage]) (scram.sendClientFinalMessage server response)
      (fun finalResponse sent => Proved scram server response sent ∧
        server.respond sent = .ok finalResponse)
      (fun _ sent => Guarded scram server sent) := by
  have hguarded : ∀ sent, sent = [scram.firstMessage] → Guarded scram server sent := by
    intro sent hsent
    rw [hsent]
    exact guarded_first
  unfold sendClientFinalMessage
  cases hr : response.r with
  | none => exact ensures_throw hguarded
  | some nonce =>
      dsimp only
      split
      · exact ensures_throw hguarded
      · next hnonce =>
          split
          · exact ensures_throw hguarded
          · next hcount =>
              -- Both checks have been passed, and the proof can still fail.
              have hproof : Ensures (· = [scram.firstMessage])
                  (Command.ofExcept (scram.clientProof response))
                  (fun proof sent => sent = [scram.firstMessage] ∧
                    scram.clientProof response = .ok proof)
                  (fun _ sent => Guarded scram server sent) :=
                ensures_ofExcept (fun _ hproof _ hsent => ⟨hsent, hproof⟩)
                  fun _ _ sent hsent => hguarded sent hsent
              refine hproof.bind fun proof => ?_
              rintro _ ⟨rfl, hproof⟩
              have hproved : Proved scram server response
                  [scram.firstMessage, finalMessage response proof] :=
                ⟨hfirst, ⟨nonce, hr, not_not.mp hnonce⟩, Bool.eq_false_of_not_eq_true hcount,
                  proof, hproof, rfl⟩
              refine ensures_saslAuthenticate.imp ?_ ?_ _ rfl
              · rintro finalResponse _ ⟨rfl, hrespond⟩
                exact ⟨hproved, hrespond⟩
              · rintro _ _ rfl
                exact hproved.guarded

/-- The server has proved to the client, over the same messages, that it knows the password. -/
def Authenticated (scram : Scram) (server : Server) (sent : List Message) : Prop :=
  ∃ response finalResponse serverKey, Proved scram server response sent ∧
    server.respond sent = .ok finalResponse ∧ scram.serverKey response = .ok serverKey ∧
    finalResponse.v = some (scram.serverSignature serverKey response)

/-- The response to the final message is accepted only with the signature. -/
theorem checkFinalResponse_eq_ok {finalResponse : ClientMessageResponse}
    (h : scram.checkFinalResponse response finalResponse = .ok ()) :
    ∃ serverKey, scram.serverKey response = .ok serverKey ∧
      finalResponse.v = some (scram.serverSignature serverKey response) := by
  unfold checkFinalResponse at h
  dsimp only at h
  split at h
  · cases h
  · cases hkey : scram.serverKey response with
    | error error =>
        rw [hkey] at h
        cases h
    | ok serverKey =>
        rw [hkey] at h
        change (if _ then _ else _) = _ at h
        split at h
        · cases h
        · next hsignature => exact ⟨serverKey, rfl, not_not.mp hsignature⟩

/-- Where the exchange succeeds the server is authenticated, and what was sent is guarded anyway. -/
theorem ensures_exchange : Ensures (· = []) (scram.exchange server)
    (fun _ sent => Authenticated scram server sent) (fun _ sent => Guarded scram server sent) := by
  refine ensures_sendClientFirstMessage.bind fun response => ?_
  have hfinal : Ensures
      (fun sent => sent = [scram.firstMessage] ∧ server.respond sent = .ok response)
      (scram.sendClientFinalMessage server response)
      (fun finalResponse sent => Proved scram server response sent ∧
        server.respond sent = .ok finalResponse)
      (fun _ sent => Guarded scram server sent) := by
    rintro _ ⟨rfl, hfirst⟩
    exact ensures_sendClientFinalMessage hfirst _ rfl
  refine hfinal.bind fun finalResponse => ensures_ofExcept ?_ ?_
  · intro _ hok sent ⟨hproved, hrespond⟩
    obtain ⟨serverKey, hkey, hsignature⟩ := checkFinalResponse_eq_ok hok
    exact ⟨response, finalResponse, serverKey, hproved, hrespond, hkey, hsignature⟩
  · exact fun _ _ sent hsent => hsent.1.guarded

/-- The client resolves when the server is authenticated, and throws with no final message sent or
one sent after the checks. -/
theorem ensures_authenticate : Ensures (· = []) (scram.authenticate server)
    (fun _ sent => Authenticated scram server sent) (fun _ sent => Guarded scram server sent) := by
  unfold authenticate
  split
  · refine ensures_throw ?_
    rintro _ rfl
    exact Or.inl fun _ => List.not_mem_nil
  · exact ensures_exchange.tryCatch fun _ => ensures_throw fun _ hsent => hsent

/-- A count of digits alone is read as the number that they denote. -/
theorem iterations_of_digits {digits : Text} (hi : response.i = some digits) (hne : digits ≠ [])
    (hdigits : ∀ unit ∈ digits, Number.isDigit unit = true) :
    iterations response = some (Number.ofDigits digits : Int) := by
  rw [iterations, inTemplate, hi]
  exact Number.parseInt_digits hne hdigits

/-- What the client checks: the nonce and the count before it sends a final message, and the
signature of the server before it resolves. -/
structure Checked (scram : Scram) (server : Server) : Prop where
  proof : ∀ text, .final text ∈ (scram.run server).2 → ∃ response nonce,
    server.respond [scram.firstMessage] = .ok response ∧
      response.r = some nonce ∧ scram.currentNonce <+: nonce ∧
      (∀ count, iterations response = some count →
        scram.digestDefinition.minIterations ≤ count) ∧
      ∀ digits, response.i = some digits → digits ≠ [] →
        (∀ unit ∈ digits, Number.isDigit unit = true) →
          scram.digestDefinition.minIterations ≤ Number.ofDigits digits
  signature : (scram.run server).1 = .ok () → ∃ response proof serverKey finalResponse,
    server.respond [scram.firstMessage] = .ok response ∧
      scram.clientProof response = .ok proof ∧
      (scram.run server).2 = [scram.firstMessage, finalMessage response proof] ∧
      server.respond (scram.run server).2 = .ok finalResponse ∧
      scram.serverKey response = .ok serverKey ∧
      finalResponse.v = some (scram.serverSignature serverKey response)

/-- An iteration count that is a number and not less is at least the minimum. -/
theorem le_of_not_isLess {minIterations count : Int}
    (h : isLess (iterations response) minIterations = false)
    (hcount : iterations response = some count) : minIterations ≤ count := by
  rw [hcount] at h
  exact Int.not_lt.mp (of_decide_eq_false h)

/-- Whatever the server does, the final message is guarded and success is authenticated. -/
theorem guarded_run (scram : Scram) (server : Server) :
    Guarded scram server (scram.run server).2 ∧
      ((scram.run server).1 = .ok () → Authenticated scram server (scram.run server).2) := by
  have hensures := @ensures_authenticate scram server [] rfl
  rw [← run] at hensures
  rcases hrun : scram.run server with ⟨error | value, sent⟩
  · rw [hrun] at hensures
    exact ⟨hensures, nofun⟩
  · rw [hrun] at hensures
    have ⟨_, _, _, hproved, _⟩ := hensures
    exact ⟨hproved.guarded, fun _ => hensures⟩

section Passing

variable {nonce proof : Text} (hr : response.r = some nonce)
  (hstarts : scram.currentNonce <+: nonce)
  (hcount : isLess (iterations response) scram.digestDefinition.minIterations = false)
  (hproof : scram.clientProof response = .ok proof)
include hr hstarts hcount hproof

/-- A response that passes the checks is answered. -/
theorem exec_sendClientFinalMessage (server : Server) (sent : List Message) :
    Command.exec (scram.sendClientFinalMessage server response) sent =
      (server.respond (sent ++ [finalMessage response proof]),
        sent ++ [finalMessage response proof]) := by
  unfold sendClientFinalMessage
  rw [hr]
  dsimp only
  rw [if_neg (not_not.mpr hstarts), if_neg (by rw [hcount]; exact Bool.false_ne_true),
    Command.exec_bind, Command.exec_ofExcept, hproof]
  rfl

variable (husername : scram.username ≠ none) (hpassword : scram.password ≠ none)
  (hfirst : server.respond [scram.firstMessage] = .ok response)
include husername hpassword hfirst

/-- The whole run of a client whose checks of the first response are passed. -/
theorem run_of_passed : scram.run server =
    ((server.respond [scram.firstMessage, finalMessage response proof] >>=
        scram.checkFinalResponse response).mapError fun error =>
          authenticationError (scram.PREFIX ++ " failed: " ++ error.message),
      [scram.firstMessage, finalMessage response proof]) := by
  have hexchange : Command.exec (scram.exchange server) [] =
      (server.respond [scram.firstMessage, finalMessage response proof] >>=
        scram.checkFinalResponse response,
          [scram.firstMessage, finalMessage response proof]) := by
    unfold exchange
    rw [Command.exec_bind, show scram.sendClientFirstMessage server =
      saslAuthenticate server scram.firstMessage from rfl, exec_saslAuthenticate, List.nil_append,
      hfirst]
    dsimp only
    rw [Command.exec_bind, exec_sendClientFinalMessage hr hstarts hcount hproof,
      List.singleton_append]
    cases server.respond [scram.firstMessage, finalMessage response proof] with
    | error error => rfl
    | ok finalResponse => rfl
  unfold run authenticate
  rw [if_neg (not_or.mpr ⟨husername, hpassword⟩), Command.exec_tryCatch, hexchange]
  cases server.respond _ >>= scram.checkFinalResponse response with
  | error error => rfl
  | ok value => rfl

end Passing

/-- A server that always sends the same. -/
def alwaysSends (literal : String) : Server := fun _ =>
  .ok (some (Text.ofString literal).toUtf8)

/-- What a server that always sends the same text answers. -/
theorem respond_alwaysSends {literal : String}
    (h : (Text.ofString literal).toWellFormed = Text.ofString literal) (sent : List Message) :
    (alwaysSends literal).respond sent = processed (Text.ofString literal) := by
  simp only [Server.respond, alwaysSends, bind, Except.bind, parse]
  rw [Text.ofUtf8_toUtf8, h]

/-- A runtime that derives only zeros, three from each call. -/
def zeros : Crypto where
  fromBase64 _ := []
  pbkdf2 _ _ _ _ _ := .ok [0, 0, 0]
  createHash _ _ := [0, 0, 0]
  createHmac _ _ _ := [0, 0, 0]

/-- A client with the nonce `n`. -/
def sampleClient : Scram :=
  ⟨some (Text.ofString "user"), some (Text.ofString "pencil"), sha256, zeros, Text.ofString "n"⟩

/-- The sample client answers to a response that passes its checks. -/
theorem run_sampleClient {literal : String} {nonce : Text}
    (h : (Text.ofString literal).toWellFormed = Text.ofString literal)
    (hresponse : processed (Text.ofString literal) = .ok response) (hr : response.r = some nonce)
    (hs : response.s = some []) (hstarts : Text.ofString "n" <+: nonce)
    (hcount : isLess (iterations response) 4096 = false) :
    sampleClient.run (alwaysSends literal) =
      ((sampleClient.checkFinalResponse response response).mapError fun error =>
        authenticationError (sampleClient.PREFIX ++ " failed: " ++ error.message),
      [sampleClient.firstMessage, finalMessage response (Text.ofString "AAAA")]) := by
  have hrespond : ∀ sent, (alwaysSends literal).respond sent = .ok response := fun sent =>
    (respond_alwaysSends h sent).trans hresponse
  have hproof : sampleClient.clientProof response = .ok (Text.ofString "AAAA") := by
    rw [clientProof, clientKey, saltPassword, hs]
    rfl
  rw [run_of_passed hr hstarts hcount hproof (by simp [sampleClient]) (by simp [sampleClient])
    (hrespond _), hrespond]
  rfl

/-- The client sends a final message only to a server whose nonce starts with its own and whose
count, where it is a number, is not below the minimum, and resolves only with the signature of the
server over the same messages. Usernames are written without commas, with equals signs only where a
character is escaped, and differently if they are different. -/
theorem authenticate_checked (scram : Scram) (server : Server) :
    Checked scram server ∧ Function.Injective sanitizeString ∧
      (∀ username, comma ∉ sanitizeString username) ∧
      ∀ username after, equals :: after <:+ sanitizeString username →
        Text.ofString "2C" <+: after ∨ Text.ofString "3D" <+: after := by
  refine ⟨⟨?_, ?_⟩, sanitizeString_injective, comma_notMem_sanitizeString, fun _ _ => after_equals⟩
  · intro text hmem
    rcases (guarded_run scram server).1 with hnone | ⟨response, hproved⟩
    · exact absurd hmem (hnone text)
    · obtain ⟨nonce, hr, hstarts⟩ := hproved.nonce
      refine ⟨response, nonce, hproved.first, hr, hstarts, ?_, ?_⟩
      · exact fun _ => le_of_not_isLess hproved.count
      intro digits hi hne hdigits
      exact le_of_not_isLess hproved.count (iterations_of_digits hi hne hdigits)
  · intro hok
    obtain ⟨response, finalResponse, serverKey, hproved, hfinal, hkey, hv⟩ :=
      (guarded_run scram server).2 hok
    obtain ⟨proof, hproof, hsent⟩ := hproved.sent
    exact ⟨response, proof, serverKey, finalResponse, hproved.first, hproof, hsent, hfinal, hkey,
      hv⟩

/-- The sample client authenticates a server that sends it the signature that it expects. -/
theorem sampleClient_authenticates :
    (sampleClient.run (alwaysSends "r=nm,s=,i=4096,v=AAAA")).1 = .ok () ∧
      ∃ response proof, (sampleClient.run (alwaysSends "r=nm,s=,i=4096,v=AAAA")).2 =
        [sampleClient.firstMessage, finalMessage response proof] := by
  have hok : (sampleClient.run (alwaysSends "r=nm,s=,i=4096,v=AAAA")).1 = .ok () := by
    have hresponse : processed (Text.ofString "r=nm,s=,i=4096,v=AAAA") =
        .ok ⟨Text.ofString "r=nm,s=,i=4096,v=AAAA", some (Text.ofString "nm"), some [],
          some (Text.ofString "4096"), none, some (Text.ofString "AAAA")⟩ := by decide +kernel
    rw [run_sampleClient (by decide) hresponse rfl rfl (by decide) (by decide)]
    rfl
  obtain ⟨response, proof, _, _, -, -, hsent, -⟩ :=
    (authenticate_checked sampleClient (alwaysSends "r=nm,s=,i=4096,v=AAAA")).1.signature hok
  exact ⟨hok, response, proof, hsent⟩

/-! ## What is not checked -/

/-- Checks that refuse a nonce without a part of the server, and a count that is not a decimal
integer. -/
def ChecksStrictly (scram : Scram) (server : Server) : Prop :=
  ∀ text, .final text ∈ (scram.run server).2 → ∃ response nonce digits,
    server.respond [scram.firstMessage] = .ok response ∧
      response.r = some nonce ∧ scram.currentNonce <+: nonce ∧
      scram.currentNonce.length < nonce.length ∧
      response.i = some digits ∧ digits ≠ [] ∧ (∀ unit ∈ digits, Number.isDigit unit = true) ∧
      scram.digestDefinition.minIterations ≤ Number.ofDigits digits

/-- Where the client has sent a final message, the stricter checks are those on the nonce being its
own and on the notation of the count. -/
theorem checksStrictly_iff {text : Text} (hsent : .final text ∈ (scram.run server).2)
    (hrespond : server.respond [scram.firstMessage] = .ok response) :
    ChecksStrictly scram server ↔ response.r ≠ some scram.currentNonce ∧
      ∃ digits, response.i = some digits ∧ digits ≠ [] ∧
        ∀ unit ∈ digits, Number.isDigit unit = true := by
  constructor
  · intro h
    obtain ⟨other, nonce, digits, hother, hr, -, hlonger, hi, hne, hdigits, -⟩ := h text hsent
    cases hrespond.symm.trans hother
    refine ⟨?_, digits, hi, hne, hdigits⟩
    rintro hsame
    cases hr.symm.trans hsame
    exact Nat.lt_irrefl _ hlonger
  · rintro ⟨hother, digits, hi, hne, hdigits⟩ text hsent
    rcases (guarded_run scram server).1 with hnone | ⟨proved, hproved⟩
    · exact absurd hsent (hnone text)
    · cases hrespond.symm.trans hproved.first
      obtain ⟨nonce, hr, hstarts⟩ := hproved.nonce
      -- A prefix of the same length is the whole nonce.
      have hlonger : scram.currentNonce.length < nonce.length := by
        refine Nat.lt_of_le_of_ne hstarts.length_le fun hlength => hother ?_
        rw [hr, hstarts.eq_of_length hlength]
      exact ⟨response, nonce, digits, hrespond, hr, hstarts, hlonger, hi, hne, hdigits,
        le_of_not_isLess hproved.count (iterations_of_digits hi hne hdigits)⟩

/-- The client proves the password to a server that adds nothing to the nonce, and to one whose
count has other text behind it. -/
theorem not_checksStrictly :
    ¬ ChecksStrictly sampleClient (alwaysSends "r=n,s=,i=4096") ∧
      ¬ ChecksStrictly sampleClient (alwaysSends "r=nm,s=,i=4096x") := by
  constructor
  · intro h
    have hresponse : processed (Text.ofString "r=n,s=,i=4096") =
        .ok ⟨Text.ofString "r=n,s=,i=4096", some (Text.ofString "n"), some [],
          some (Text.ofString "4096"), none, none⟩ := by decide +kernel
    have hrun := run_sampleClient (by decide) hresponse rfl rfl (by decide) (by decide)
    obtain ⟨hother, -⟩ := (checksStrictly_iff
      (by rw [hrun]; exact List.mem_cons_of_mem _ List.mem_cons_self)
      ((respond_alwaysSends (by decide) _).trans hresponse)).mp h
    exact hother rfl
  · intro h
    have hresponse : processed (Text.ofString "r=nm,s=,i=4096x") =
        .ok ⟨Text.ofString "r=nm,s=,i=4096x", some (Text.ofString "nm"), some [],
          some (Text.ofString "4096x"), none, none⟩ := by decide +kernel
    have hrun := run_sampleClient (by decide) hresponse rfl rfl (by decide) (by decide)
    obtain ⟨-, digits, hi, -, hdigits⟩ := (checksStrictly_iff
      (by rw [hrun]; exact List.mem_cons_of_mem _ List.mem_cons_self)
      ((respond_alwaysSends (by decide) _).trans hresponse)).mp h
    cases hi
    exact absurd (hdigits 0x78 (by decide)) (by decide)

end Scram

end KafkaJs.Network
