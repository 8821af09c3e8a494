import OpenLock.Abstract.Validity
import OpenLock.Device.Run

/-! The durable changes a lock may make. Each relates the snapshot before a commit to
the one after it, together with what must have been checked. -/
namespace OpenLock
open Controller

variable (P : Primitives) (f : FactoryIdentity)

/-- Housekeeping: the log grows, the watermark may rise, the relock flags may change and
the operations in `K` may change their outcome. Authorization state does not move. -/
structure Background (K : OpKey → Prop) (a b : DeviceSnapshot) : Prop where
  auth : b.auth = a.auth
  operations : Retouched K a.operations b.operations
  logged : Logged f.info.logCapacity.toNat a b

/-- The durable cursor moved, so an identity drawn from it is new. -/
def Grew (a b : DeviceSnapshot) : Prop := a.nextCursor.toNat < b.nextCursor.toNat

/-- What `checkGrant` accepts: a grant of the current issuer for this lock, epoch, session
and action that is not revoked. -/
structure Granted (a : DeviceSnapshot) (context : SessionContext) (c : Command) (o : Owner)
    (g : Grant) : Prop where
  generation : context.generation = a.generation
  owner : a.owner = some o
  point : P.isPoint o.issuer = true
  read : readGrant P ⟨o.issuer⟩ c.credential = .ok g
  lock : g.lockId = a.lockId
  subject : g.subjectKey = context.peer
  epoch : g.epoch = a.epoch
  right : g.rights &&& c.action.right = c.action.right
  current : g.credentialId ∉ a.revoked

theorem checkGrant_ok {P : Primitives} {a : DeviceSnapshot} {context : SessionContext}
    {c : Command} {g : Grant} :
    checkGrant P a context c = .ok g ↔ ∃ o, Granted P a context c o g := by
  simp only [checkGrant, bind_eq_ok, failIf_eq_ok, okOr_eq_ok, VerifyingKey.fromBytes_eq_ok,
    pure_eq_ok, exists_const, not_not]
  constructor
  · rintro ⟨generation, o, owner, _, ⟨point, rfl⟩, _, read, lock, subject, epoch, right, current,
      rfl⟩
    exact ⟨o, generation, owner, point, read, lock, subject, epoch, right, current⟩
  · rintro ⟨o, h⟩
    exact ⟨h.generation, o, h.owner, _, ⟨h.point, rfl⟩, g, h.read, h.lock, h.subject, h.epoch,
      h.right, h.current, rfl⟩

/-- A request whose credential the current issuer signed for this session, epoch and
action, whose window was met by a clock reading of this call, and whose sequence is new. -/
structure Authorized (a : DeviceSnapshot) (clocks : List ClockSample) (context : SessionContext)
    (c : Command) (g : Grant) (seq : UInt64) : Prop where
  wellFormed : c.validate = .ok ()
  capability : c.capability &&& f.info.capabilities ≠ 0
  grant : checkGrant P a context c = .ok g
  binding : checkBinding P a g c = .ok ()
  window : ∀ v, g.validity = some v →
    ∃ r ∈ clocks, v.notBefore ≤ r.lower ∧ r.upper < v.notAfter
  sequence : c.sequence = some seq
  fresh : a.watermark g.credentialId < seq

/-- An accepted request; `reserved` tells whether it paid for an unlock. -/
structure Accepted where
  context : SessionContext
  command : Command
  grant : Grant
  sequence : UInt64
  reserved : Bool

def Accepted.key (x : Accepted) : OpKey := (x.grant.credentialId, x.sequence)

def Accepted.record (x : Accepted) (digest : Bytes32) : OperationRecord :=
  ⟨digest, acceptedStatus x.grant x.sequence x.command.action⟩

/-- The authorization state after acceptance. -/
def Accepted.auth (x : Accepted) (a : DeviceSnapshot) : AuthState :=
  { a.auth with
    watermarks := a.watermarks.insert x.grant.credentialId x.sequence
    bindings := a.bindings.insert x.grant.credentialId (P.sha256 x.command.credential)
    uses := if x.reserved then
        a.uses.insert x.grant.credentialId (a.usesOf x.grant.credentialId + 1)
      else a.uses }

/-- One more unlock under this grant is within its limit and the counter's range. -/
structure UseAllowed (a : DeviceSnapshot) (g : Grant) : Prop where
  limit : ∀ m, g.maxUses = some m → a.usesOf g.credentialId < m
  range : (a.usesOf g.credentialId).toNat + 1 < 2^32

/-- Room was made for one operation record without losing the running drive's. -/
structure Admitted (owned : Option Active) (ops kept : List OperationRecord) : Prop where
  sublist : kept.Sublist ops
  fits : kept.length < f.info.operationCapacity.toNat
  drive : ∀ d, owned = some d → ∀ r ∈ ops, r.key = d.key → r ∈ kept

/-- The acceptance commit. -/
structure Acceptance (clocks : List ClockSample) (owned : Option Active) (x : Accepted)
    (a b : DeviceSnapshot) : Prop where
  authorized : Authorized P f a clocks x.context x.command x.grant x.sequence
  mutates : x.command.action.mutates = true
  keepsDomain : clearsDomain P a x.command.action = .ok false
  watermarkRoom : x.grant.credentialId ∈ a.watermarks
    ∨ a.watermarks.size < f.info.credentialCapacity.toNat
  bindingRoom : x.grant.credentialId ∈ a.bindings
    ∨ a.bindings.size < f.info.credentialCapacity.toNat
  reserved : x.reserved = true → x.command.action = .unlock ∧ UseAllowed a x.grant
  idle : x.command.action = .unlock ∨ x.command.action = .lock →
    owned = none ∧ a.firmware.phase ≠ .trial
  auth : b.auth = x.auth P a
  operations : ∃ kept digest, Admitted f owned a.operations kept
    ∧ b.operations = kept ++ [x.record digest]
  logged : Logged f.info.logCapacity.toNat a b
  grew : Grew a b

/-- A claim of an ownerless device inside its pairing window. -/
structure Claiming (entry : Controller) (now : UInt64) (context : SessionContext) (c : Command)
    (key issuer : Bytes32) (admin : Bytes) (g : Grant) (a b : DeviceSnapshot) : Prop where
  wellFormed : c.validate = .ok ()
  capability : c.capability &&& f.info.capabilities ≠ 0
  generation : context.generation = a.generation
  action : c.action = .claim key issuer admin
  ownerless : a.owner = none
  window : windowClosed entry now = false
  setupKey : P.sha256 key.toList = f.setupKeyHash
  issuerPoint : P.isPoint issuer = true
  grant : readGrant P ⟨issuer⟩ admin = .ok g
  administrator : adminRejected a context g = false
  range : a.generation.toNat + 1 < 2^64
  auth : b.auth = (claimedSnapshot P a context issuer admin g (a.generation + 1)).auth
  operations : b.operations = a.operations
  logged : Logged f.info.logCapacity.toNat a b
  grew : Grew a b

/-- A physical confirmation of exactly this command, still current. -/
def Confirmed (entry : Controller) (now : UInt64) (context : SessionContext) (c : Command) : Prop :=
  ∃ k encoded, entry.confirmation = some k ∧ encodeWire P c = .ok encoded
    ∧ k.peer = context.peer ∧ k.digest = P.sha256 encoded ∧ now < k.expires

/-- The three requests that replace the whole authorization domain in one commit. -/
inductive DomainChange (entry : Controller) (now : UInt64) (context : SessionContext)
    (c : Command) (a b : DeviceSnapshot) : Prop
  | reset (action : c.action = .factoryReset) (confirmed : Confirmed P entry now context c)
      (settled : a.firmware.phase ≠ .trial)
      (epoch : a.epoch.toNat + 1 < 2^64) (generation : a.generation.toNat + 1 < 2^64)
      (result : b = Execute.resetSnapshot f a (a.epoch + 1) (a.generation + 1))
  | replace (issuer : Bytes32) (action : c.action = .replaceIssuer issuer)
      (confirmed : Confirmed P entry now context c) (settled : a.firmware.phase ≠ .trial)
      (point : P.isPoint issuer = true)
      (epoch : a.epoch.toNat + 1 < 2^64) (generation : a.generation.toNat + 1 < 2^64)
      (auth : b.auth = (Execute.replacedSnapshot a issuer context.peer (a.epoch + 1)
        (a.generation + 1)).auth)
      (operations : b.operations = []) (logged : Logged f.info.logCapacity.toNat a b)
  | epoch (signed : Bytes) (p : PolicyUpdate) (key : VerifyingKey)
      (action : c.action = .applyPolicy signed) (issuer : issuerKey P a = .ok key)
      (read : readPolicy P key signed = .ok p) (lock : p.lockId = a.lockId)
      (newer : a.epoch < p.epoch) (fits : p.revoked.size ≤ f.info.credentialCapacity.toNat)
      (generation : a.generation.toNat + 1 < 2^64)
      (auth : b.auth = { (Execute.newEpoch a p.epoch (a.generation + 1)).auth with
        policyVersion := p.version, revoked := ∅ ∪ p.revoked })
      (operations : b.operations = []) (logged : Logged f.info.logCapacity.toNat a b)

/-- A firmware record reached by an accepted firmware request. -/
inductive FirmwareStep (a : DeviceSnapshot) : Action → FirmwareStatus → Bytes → Prop
  | begin (signed : Bytes) (m : FirmwareManifest) (root : P.isPoint f.firmwareRoot = true)
      (read : readManifest P ⟨f.firmwareRoot⟩ signed = .ok m) (model : m.model = f.info.model)
      (hardware : m.hardware = f.info.hardware) (size : m.size ≤ f.info.maxImageSize)
      (newer : a.firmware.securityVersion < m.securityVersion)
      (idle : a.firmware.phase ≠ .receiving) :
      FirmwareStep a (.firmwareBegin signed)
        ⟨.receiving, 0, some m, a.firmware.securityVersion⟩ signed
  | chunk (offset : UInt64) (data : Bytes) (m : FirmwareManifest) (received : UInt64)
      (phase : a.firmware.phase = .receiving) (manifest : a.firmware.manifest = some m)
      (bound : received ≤ m.size) :
      FirmwareStep a (.firmwareChunk offset data) { a.firmware with received } a.signedManifest
  | verify (m : FirmwareManifest) (phase : a.firmware.phase = .receiving)
      (manifest : a.firmware.manifest = some m) (complete : a.firmware.received = m.size) :
      FirmwareStep a .firmwareFinish { a.firmware with phase := .verified } a.signedManifest
  | trial (phase : a.firmware.phase = .verified) :
      FirmwareStep a .firmwareActivate { a.firmware with phase := .trial } a.signedManifest
  | abort (phase : a.firmware.phase ≠ .trial) :
      FirmwareStep a .firmwareAbort ⟨.empty, 0, none, a.firmware.securityVersion⟩ []

/-- The authorization state an accepted request leads to when it is carried out. -/
inductive Effected (a : DeviceSnapshot) (x : Accepted) : AuthState → Prop
  | config (config : DeviceConfig) (action : x.command.action = .setConfig config)
      (valid : config.validate f.info = .ok ()) : Effected a x { a.auth with config }
  | policy (signed : Bytes) (p : PolicyUpdate) (key : VerifyingKey)
      (action : x.command.action = .applyPolicy signed) (issuer : issuerKey P a = .ok key)
      (read : readPolicy P key signed = .ok p) (lock : p.lockId = a.lockId)
      (same : p.epoch = a.epoch) (newer : a.policyVersion < p.version)
      (fits : (a.revoked ∪ p.revoked).size ≤ f.info.credentialCapacity.toNat) :
      Effected a x { a.auth with policyVersion := p.version, revoked := a.revoked ∪ p.revoked }
  | firmware (firmware : FirmwareStatus) (signedManifest : Bytes)
      (step : FirmwareStep P f a x.command.action firmware signedManifest) :
      Effected a x { a.auth with firmware, signedManifest }
  | rotate (signed : Bytes) (key : DeviceKey) (action : x.command.action = .rotateDeviceKey signed)
      (valid : validateDeviceKey P key = .ok ()) (device : key.deviceId = a.deviceKey.deviceId)
      (range : a.generation.toNat + 1 < 2^64) :
      Effected a x { a.auth with deviceKey := key, generation := a.generation + 1 }

/-- The outcome of a firmware trial, as the bootloader reports it. -/
inductive TrialEnded (a : DeviceSnapshot) : FirmwareStatus → Prop
  | confirmed (m : FirmwareManifest) (manifest : a.firmware.manifest = some m) :
      TrialEnded a { a.firmware with phase := .confirmed, securityVersion := m.securityVersion }
  | rolledBack : TrialEnded a { a.firmware with phase := .failed }

end OpenLock
