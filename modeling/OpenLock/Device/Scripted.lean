import OpenLock.Device.Run

/-! Lives of a device whose platform and storage follow a script, and a small lock to live
them on. Every scripted life is a run. -/
namespace OpenLock
open Effects

/-- What the platform and the store answer, by the position of the effect in its call. -/
structure Script where
  monotonicMs : Nat → UInt64
  wallClock : Option ClockSample
  sensors : Nat → HardwareSample
  stopAction : Nat → Except Error Unit
  commit : Nat → CommitAnswer
  bootOutcome : BootOutcome := .pending

namespace Script

/-- A load returns the durable snapshot and everything else succeeds. -/
def answer (x : Script) (disk : Option DeviceSnapshot) (past : List (Event Answer)) :
    (e : Effect) → Answer e
  | .monotonicMs => x.monotonicMs past.length
  | .wallClock => x.wallClock
  | .sensors => x.sensors past.length
  | .stopAction => x.stopAction past.length
  | .startAction _ _ _ _ | .setWallClock _ | .requestReboot => .ok ()
  | .bootloader => true
  | .bootBegin _ _ | .bootWrite _ _ | .bootReady | .bootActivate _ _ | .bootAbort => .ok ()
  | .bootRead _ _ => .ok []
  | .bootImageHash _ => .ok (Vector.replicate 32 0)
  | .bootOutcome _ => .ok x.bootOutcome
  | .hasDevicePrivateKey _ => true
  | .load => .ok disk
  | .submit _ => ()
  | .commit _ => x.commit past.length

theorem permitted (x : Script) (disk : Option DeviceSnapshot) (past : List (Event Answer))
    (e : Effect) : storage.permits disk ⟨e, x.answer disk past e⟩ := by
  cases e <;> first | rfl | trivial

end Script

section Lives
variable (P : Primitives) (f : FactoryIdentity) {Q : Event Answer → Prop} {x : Script}

def Record.construct (before : Device) (k : Constructor) (x : Script) : Record P f where
  before := before
  call := .construct k
  trace := _
  output := _
  after := _
  performed := .construct (Exec.play x.permitted (k.program P f).run before.disk [])

def Record.method (before : Device) {c : Controller} (found : before.controller = some c)
    (m : Method) (x : Script) : Record P f where
  before := before
  call := .method m
  trace := _
  output := _
  after := _
  performed := .method found (Exec.play x.permitted (m.program P c) before.disk [])

/-- What holds of every scripted answer holds of the effects of the call. -/
theorem Record.construct_forall (answers : ∀ disk past e, Q ⟨e, x.answer disk past e⟩)
    (before : Device) (k : Constructor) :
    ∀ ev ∈ (Record.construct P f before k x).trace, Q ev :=
  Prog.play_forall answers (k.program P f).run before.disk []

theorem Record.method_forall (answers : ∀ disk past e, Q ⟨e, x.answer disk past e⟩)
    (before : Device) {c : Controller} (found : before.controller = some c) (m : Method) :
    ∀ ev ∈ (Record.method P f before found m x).trace, Q ev :=
  Prog.play_forall answers (m.program P c) before.disk []

variable {P f}

def Run.blank : Run P f := ⟨[], .blank, .nil _⟩

/-- One more call, completed by the script. Without a controller there is no method. -/
def Run.then (run : Run P f) (x : Script) : Call → Run P f
  | .construct k => ⟨run.records ++ [.construct P f run.final k x], _, .snoc _ run.chain rfl⟩
  | .method m =>
    match found : run.final.controller with
    | none => run
    | some _ => ⟨run.records ++ [.method P f run.final found m x], _, .snoc _ run.chain rfl⟩

/-- A trace around one of its events. -/
theorem trace_split {α : Type} {tr : List α} {k : Nat} {ev : α}
    (h : tr[k]? = some ev) : tr = tr.take k ++ ev :: tr.drop (k + 1) := by
  obtain ⟨bound, rfl⟩ := List.getElem?_eq_some_iff.1 h
  rw [← List.drop_eq_getElem_cons, List.take_append_drop]

end Lives

namespace Bench
/-! A motor lock with a bolt sensor, room for two credentials and one operation record.
Its codec knows the grants of three credentials, and every signature is good. -/

def lockId : LockId := ⟨Vector.replicate 16 7⟩
def credentialId (n : UInt8) : CredentialId := ⟨Vector.replicate 16 n⟩
def peer : SubjectKey := ⟨Vector.replicate 32 9⟩
def key : Bytes32 := Vector.replicate 32 1

/-- An unlimited grant of all rights in epoch 0. -/
def grantValue (n : UInt8) : Value :=
  .array [.integer 2, .text "grant", .bytes (credentialId n).bytes.toList,
    .bytes lockId.bytes.toList, .bytes peer.bytes.toList, .integer 2047, .integer 0, .null, .null]

def grantCose (n : UInt8) : Value :=
  .array [.bytes [3], .map [], .bytes [1, n], .bytes (List.replicate 64 0)]

def primitives : Primitives where
  intoWriter v :=
    if v = protectedHeader then some [3]
    else
      match [0, 1, 2].find? fun n => v = grantValue n ∨ v = grantCose n with
      | some n => some (if v = grantValue n then [1, n] else [2, n])
      | none => some [0]
  fromReader _
    | [1, n] => some (grantValue n, [])
    | [2, n] => some (grantCose n, [])
    | _ => none
  sha256 _ := Vector.replicate 32 0
  isPoint _ := true
  verifyStrict _ _ _ := true
  contributory _ := true

/-- The codec also knows one signed value, under its own number. -/
def signing (v : Value) : Primitives :=
  { primitives with
    intoWriter := fun w =>
      if w = v then some [1, 9]
      else if w = grantCose 9 then some [2, 9]
      else primitives.intoWriter w
    fromReader := fun depth bytes =>
      if bytes = [1, 9] then some (v, []) else primitives.fromReader depth bytes }

def factory : FactoryIdentity where
  info :=
    { lockId
      model := "bench"
      hardware := "bench"
      firmware := "bench"
      capabilities := 0x0f
      actuator := .motor
      boltSensor := true
      doorSensor := false
      privacySensor := false
      batterySensor := false
      safeLockWithoutDoor := true
      holdOpen := false
      maxReleaseMs := 500
      maxActionMs := 1000
      maxDelayMs := 1000
      logCapacity := 4
      operationCapacity := 1
      credentialCapacity := 2
      maxImageSize := 0
      maxChunkSize := 0 }
  setupKeyHash := Vector.replicate 32 0
  firmwareRoot := key
  deviceKey := ⟨lockId, 1, 1, key, key, 1⟩

def showing (bolt : BoltState) : HardwareSample :=
  ⟨.known bolt, .unsupported, .unsupported, .unsupported⟩

/-- The bolt stays locked, nothing fails and there is no wall clock. -/
def steady (now : UInt64) : Script where
  monotonicMs _ := now
  wallClock := none
  sensors _ := showing .locked
  stopAction _ := .ok ()
  commit _ := .ok

/-- A device taken over from a new legacy lock. -/
def imported {P : Primitives} {f : FactoryIdentity} : Run P f :=
  Run.blank.then (steady 1) (.construct (.migrateLegacy ⟨0, 0, ∅, ∅⟩ ⟨key⟩ peer))

/-- A device taken over from a legacy record that has counted one use of each of `ids`. -/
def migrated (ids : List UInt8) : Run primitives factory :=
  Run.blank.then (steady 1) (.construct (.migrateLegacy
    ⟨0, 0, ∅, ids.foldl (fun uses n => uses.insert (credentialId n) 1) ∅⟩ ⟨key⟩ peer))

/-- A request under credential 0 in the session of a given generation. -/
def send (generation : UInt64) (sequence : Option UInt64) (action : Action) : Call :=
  .method (.handle ⟨peer, generation⟩ ⟨[2, 0], sequence, action⟩)

/-- A device that has started its first unlock. -/
def driven : Run primitives factory := (migrated []).then (steady 1) (send 1 (some 1) .unlock)

theorem driven_two : 1 < driven.records.length := by decide +kernel

/-- The call that started it. -/
def unlocking : Record primitives factory := driven.records.get ⟨1, driven_two⟩

theorem unlocking_mem : unlocking ∈ driven.records := List.get_mem _ _

end Bench
end OpenLock
