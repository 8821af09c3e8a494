import OpenLock.Effects.Simulation
import OpenLock.Device.Lifecycle

/-! Whole lives of one device: public calls in any order and with any answers, power
cuts between any two effects, and a store that may fail before or after writing. -/
namespace OpenLock
open Effects

/-- The constructors, each of which may follow a reboot at any time. -/
inductive Constructor where
  | provision
  | migrateLegacy (legacy : LockSnapshot) (issuer : VerifyingKey) (firstAdmin : SubjectKey)
  | «open»

/-- The methods of a constructed controller. -/
inductive Method where
  | handle (context : SessionContext) (c : Command)
  | handleLocal (peer : SubjectKey) (c : Command)
  | confirmPhysical (context : SessionContext) (c : Command)
  | openPairingWindow
  | hardwareChanged
  | actuatorFinished (id : ActuationId) (result : ActuatorResult)
  | poll

inductive Call where
  | construct (k : Constructor)
  | method (m : Method)

/-- What a call returns to its caller. -/
inductive Output where
  | result (r : Except Error Unit)
  | response (r : Response)
  deriving DecidableEq

/-- An outer error of `handle`, or an `Err` of any other call. -/
def Output.failed : Output → Bool
  | .result (.error _) => true
  | .response ⟨_, .error _⟩ => true
  | _ => false

/-- The durable store: `load` returns the last durable snapshot or fails, and a failed
commit may have written. -/
def storage : World Answer (Option DeviceSnapshot) where
  permits disk
    | ⟨.load, .ok stored⟩ => stored = disk
    | _ => True
  after disk
    | ⟨.commit next, .ok⟩ | ⟨.commit next, .written _⟩ => some next
    | _ => disk

/-- The device between calls. A failed or cut constructor leaves no controller. -/
structure Device where
  disk : Option DeviceSnapshot
  controller : Option Controller

def Device.blank : Device := ⟨none, none⟩

variable (P : Primitives) (f : FactoryIdentity) {disk : Option DeviceSnapshot}
  {entry : Option Controller} {tr : List (Event Answer)} {call : Call} {m : Moment}

def Constructor.program : Constructor → Controller.Init Controller
  | .provision => Controller.provision P f
  | .migrateLegacy legacy issuer firstAdmin => Controller.migrateLegacy P f legacy issuer firstAdmin
  | .open => Controller.open P f

/-- Run a fallible method and report its result. -/
def Method.returning (x : Ctl Unit) : StateT Controller (Prog Answer) Output :=
  Output.result <$> x.run

def Method.program : Method → StateT Controller (Prog Answer) Output
  | .handle context c => .response <$> Controller.handle P context c
  | .handleLocal peer c => .response <$> Controller.handleLocal P peer c
  | .confirmPhysical context c => returning (Controller.confirmPhysical P context c)
  | .openPairingWindow => returning Controller.openPairingWindow
  | .hardwareChanged => returning (Controller.hardwareChanged P)
  | .actuatorFinished id result => returning (Controller.actuatorFinished P id result)
  | .poll => returning (Controller.poll P)

/-- One call, completed or cut off, from `before` to `after`. -/
inductive Performs : Device → Call → List (Event Answer) → Option Output → Device → Prop
  | construct {before : Device} {k : Constructor} {tr : List (Event Answer)}
      {disk : Option DeviceSnapshot} {r : Option (Except Error Controller)}
      (exec : Exec storage before.disk (k.program P f).run tr disk r) :
      Performs before (.construct k) tr (r.map fun x => .result (x.map fun _ => ()))
        ⟨disk, r.bind Except.toOption⟩
  | method {before : Device} {m : Method} {c : Controller} {tr : List (Event Answer)}
      {disk : Option DeviceSnapshot} {r : Option (Output × Controller)}
      (controller : before.controller = some c)
      (exec : Exec storage before.disk (m.program P c) tr disk r) :
      Performs before (.method m) tr (r.map Prod.fst) ⟨disk, r.map Prod.snd⟩

/-- A call together with everything observable about it. -/
structure Record where
  before : Device
  call : Call
  trace : List (Event Answer)
  output : Option Output
  after : Device
  performed : Performs P f before call trace output after

/-- Calls that follow one another. -/
inductive Chain : Device → List (Record P f) → Device → Prop
  | nil (d : Device) : Chain d [] d
  | snoc {d e : Device} {rs : List (Record P f)} (r : Record P f) (before : Chain d rs e)
      (next : r.before = e) : Chain d (rs ++ [r]) r.after

/-- The life of a device from its blank state. -/
structure Run where
  records : List (Record P f)
  final : Device
  chain : Chain P f Device.blank records final

/-- One effect of a run, with the call that issued it, the device that call found and
the store just before the effect. -/
structure Moment where
  call : Call
  entry : Option Controller
  disk : Option DeviceSnapshot
  event : Event Answer

/-- The drive an effect starts. -/
def Effect.drive : Effect → Option (ActuationId × ActionTarget)
  | .startAction id target _ _ => some (id, target)
  | _ => none

/-- The effects that act on the world outside: the actuator, the clock, the processor and
the firmware slots. Stopping the actuator needs no permission. -/
def Effect.privileged : Effect → Bool
  | .startAction _ _ _ _ | .setWallClock _ | .requestReboot | .bootBegin _ _ | .bootWrite _ _
  | .bootActivate _ _ | .bootAbort => true
  | _ => false

/-- The effects that may change the bootloader's staging area. -/
def Effect.stages : Effect → Bool
  | .bootBegin _ _ | .bootWrite _ _ | .bootAbort => true
  | _ => false

/-- The actuator was stopped. -/
def ActuatorStopped (tr : List (Event Answer)) : Prop := ∃ u, (⟨.stopAction, .ok u⟩ : Event Answer) ∈ tr

def Moment.drive (m : Moment) : Option (ActuationId × ActionTarget) := m.event.effect.drive

/-- Whether a call imports a legacy record. -/
def Call.migrates : Call → Bool
  | .construct (.migrateLegacy _ _ _) => true
  | _ => false

/-- The moments of one call, given the store at its start. -/
def momentsFrom (call : Call) (entry : Option Controller) :
    Option DeviceSnapshot → List (Event Answer) → List Moment
  | _, [] => []
  | disk, ev :: tr => ⟨call, entry, disk, ev⟩ :: momentsFrom call entry (storage.after disk ev) tr

theorem momentsFrom_call (h : m ∈ momentsFrom call entry disk tr) : m.call = call := by
  induction tr generalizing disk with
  | nil => cases h
  | cons ev tr ih =>
    rcases List.mem_cons.1 h with rfl | later
    · rfl
    · exact ih later

/-- A moment of a call is one of its events with the store that the events before it left. -/
theorem mem_momentsFrom : m ∈ momentsFrom call entry disk tr ↔ ∃ pre ev post, tr = pre ++ ev :: post
      ∧ m = ⟨call, entry, storage.afterAll disk pre, ev⟩ := by
  induction tr generalizing disk with
  | nil => simp [momentsFrom]
  | cons first tr ih =>
    rw [momentsFrom, List.mem_cons, ih]
    constructor
    · rintro (rfl | ⟨pre, ev, post, rfl, rfl⟩)
      · exact ⟨[], first, tr, rfl, rfl⟩
      · exact ⟨first :: pre, ev, post, rfl, rfl⟩
    · rintro ⟨pre, ev, post, split, rfl⟩
      cases pre with
      | nil => cases split; exact .inl rfl
      | cons _ pre => cases split; exact .inr ⟨pre, ev, post, rfl, rfl⟩

theorem momentsFrom_event {ev : Event Answer} (h : ev ∈ tr) :
    ∃ m ∈ momentsFrom call entry disk tr, m.event = ev := by
  induction tr generalizing disk with
  | nil => cases h
  | cons first tr ih =>
    rcases List.mem_cons.1 h with rfl | later
    · exact ⟨_, List.mem_cons_self, rfl⟩
    · obtain ⟨m, hm, event⟩ := ih later
      exact ⟨m, List.mem_cons_of_mem _ hm, event⟩

variable {P f}

def Record.moments (r : Record P f) : List Moment :=
  momentsFrom r.call r.before.controller r.before.disk r.trace

/-- All effects of a run, in order. -/
def Run.moments (run : Run P f) : List Moment := run.records.flatMap Record.moments

/-- The durable snapshot after some effects of a run. -/
def storeAfter (ms : List Moment) : Option DeviceSnapshot := storage.afterAll none (ms.map Moment.event)

/-- The session and command of a request. `handle_local` takes the current generation. -/
def Call.request : Call → Option Controller → Option (SessionContext × Command)
  | .method (.handle context c), _ => some (context, c)
  | .method (.handleLocal peer c), some me => some (me.context peer, c)
  | _, _ => none

def Moment.request (m : Moment) : Option (SessionContext × Command) := m.call.request m.entry

end OpenLock
