import OpenLock.Effects.Stays
import OpenLock.Device.Poisoned

/-! Properties of methods that follow from how they are built. A property that sequencing
and the innermost operations have is one of every method above them. -/
namespace OpenLock
open Controller Effects

variable {P : Primitives} {α β : Type} {c c' : Controller} {x : Ctl Unit}

/-- The fields that servicing a reading leaves alone. -/
def Frozen (c c' : Controller) : Prop :=
  (c'.factory, c'.lastMono, c'.pairingUntil, c'.pairingFailures, c'.confirmation)
    = (c.factory, c.lastMono, c.pairingUntil, c.pairingFailures, c.confirmation)

instance : Std.Refl Frozen := ⟨fun _ => rfl⟩

instance : IsTrans Controller Frozen := ⟨fun _ _ _ h h' => Eq.trans h' h⟩

/-- A property of the methods that service a sensor reading: they ask the wall clock,
persist, stop the actuator and keep the frozen fields. -/
structure Serving (Φ : ∀ {α : Type}, Ctl α → Prop) : Prop where
  pure : ∀ {α : Type} (a : α), Φ (pure a)
  throw : ∀ {α : Type} (e : Error), Φ (throw e : Ctl α)
  get : Φ get
  bind : ∀ {α β : Type} {x : Ctl α} {g : α → Ctl β}, Φ x → (∀ a, Φ (g a)) → Φ (x >>= g)
  modify : ∀ {g : Controller → Controller}, (∀ c, Frozen c (g c)) → Φ (modify g)
  wallClock : Φ (request .wallClock)
  commit : ∀ P n, Φ (commit P n)
  requireStop : Φ requireStop

namespace Serving
variable {Φ : ∀ {α : Type}, Ctl α → Prop}

theorem ite (_ : Serving Φ) {p : Prop} [Decidable p] {x y : Ctl α} (hx : Φ x) (hy : Φ y) :
    Φ (if p then x else y) := by
  split
  · exact hx
  · exact hy

variable (h : Serving Φ)
include h

theorem map {x : Ctl α} (g : α → β) (hx : Φ x) : Φ (g <$> x) := by
  rw [map_eq_pure_bind]
  exact h.bind hx fun a => h.pure (g a)

theorem orFail (x : Except Error α) : Φ (orFail x) := by
  cases x with
  | ok a => exact h.pure a
  | error e => exact h.throw e

theorem failIf (p : Prop) [Decidable p] (e : Error) : Φ (failIf p e : Ctl Unit) :=
  h.ite (h.throw e) (h.pure ())

theorem recordClock (observed : Option ClockSample) : Φ (recordClock P observed) := by
  refine h.bind h.get fun c => ?_
  cases observed with
  | none => exact h.ite (h.commit _ _) (h.pure ())
  | some sample =>
    exact h.ite (h.ite (h.commit _ _) (h.pure ())) (h.ite (h.commit _ _) (h.pure ()))

theorem refreshClock : Φ (refreshClock P) :=
  h.bind h.wallClock fun _ => h.bind (h.recordClock _) fun _ => h.bind h.get fun _ => h.pure _

theorem wall : Φ wall :=
  h.bind h.get fun _ => h.ite (h.bind h.wallClock fun _ => h.pure _) (h.pure _)

theorem recordWall (n : DeviceSnapshot) : Φ (recordWall n) := by
  refine h.bind h.wall fun r => ?_
  cases r with
  | some => exact h.pure _
  | none => exact h.pure _

theorem audit (n : DeviceSnapshot) (kind : AuditKind) (id : Option CredentialId)
    (sequence : Option UInt64) (code : UInt32) : Φ (audit n kind id sequence code) :=
  h.bind (h.recordWall _) fun _ => h.bind (h.orFail _) fun _ => h.bind h.wall fun _ =>
    h.bind h.get fun _ => h.pure _

theorem auditAutomatic (n : DeviceSnapshot) (phase : OperationPhase)
    (evidence : CompletionEvidence) (error : UInt32) :
    Φ (auditAutomatic n phase evidence error) :=
  h.bind (h.audit _ _ _ _ _) fun _ => h.pure _

theorem dropRelockIf (p : Prop) [Decidable p] (n : DeviceSnapshot) : Φ (dropRelockIf p n) :=
  h.ite (h.bind (h.modify fun _ => rfl) fun _ => h.pure _) (h.pure _)

theorem scheduleRelock (n : DeviceSnapshot) (now : UInt64) : Φ (scheduleRelock n now) := by
  refine h.ite (h.pure _) ?_
  cases n.config.autoRelock with
  | disabled => exact h.pure _
  | delay | afterClose => exact h.bind (h.modify fun _ => rfl) fun _ => h.pure _

theorem scheduleRelockIf (p : Prop) [Decidable p] (n : DeviceSnapshot) (now : UInt64) :
    Φ (scheduleRelockIf p n now) :=
  h.ite (h.scheduleRelock n now) (h.pure _)

theorem failDrive (n : DeviceSnapshot) (a : Active) (e : Error) : Φ (failDrive n a e) :=
  h.ite (h.auditAutomatic _ _ _ _) (h.bind (h.orFail _) fun _ => h.audit _ _ _ _ _)

theorem stopFaultyDrive : Φ stopFaultyDrive := by
  refine h.bind h.get fun c => ?_
  cases c.active with
  | none => exact h.pure _
  | some a =>
    exact h.bind h.requireStop fun _ => h.bind (h.dropRelockIf _ _) fun _ => h.failDrive _ _ _

theorem sensorFault (allow : Bool) : Φ (sensorFault P allow) := by
  refine h.bind (h.modify fun _ => rfl) fun _ => h.bind h.stopFaultyDrive fun n => h.bind ?report
    fun n => h.bind ?changed fun _ => h.bind h.refreshClock fun _ => h.ite (h.pure _) (h.throw _)
  case report => exact h.ite (h.pure _) (h.audit _ _ _ _ _)
  case changed => exact h.bind h.get fun _ => h.ite (h.commit _ _) (h.pure ())

theorem stopUnsafeAction (now : UInt64) : Φ (stopUnsafeAction P now) := by
  refine h.bind h.get fun c => ?_
  cases c.active with
  | none => exact h.pure _
  | some a =>
    dsimp only
    cases driveHazard c.factory.info c.sample a now with
    | none => exact h.pure _
    | some e =>
      exact h.bind h.requireStop fun _ => h.bind (h.modify fun _ => rfl) fun _ =>
        h.bind (h.dropRelockIf _ _) fun _ => h.bind (h.failDrive _ _ _) fun _ => h.commit _ _

theorem recordSample (old sample : HardwareSample) (now : UInt64) (idle locked : Bool)
    (previous : Option BoltState) :
    Φ (recordSample P old sample now idle locked previous) := by
  refine h.bind h.get fun _ => h.bind ?audit fun _ => h.bind (h.dropRelockIf _ _) fun _ =>
    h.bind ?door fun _ => h.bind (h.scheduleRelockIf _ _ _) fun _ => h.commit _ _
  case audit => exact h.ite (h.pure _) (h.bind (h.audit _ _ _ _ _) fun _ => h.pure _)
  case door => exact h.ite (h.modify fun _ => rfl) (h.pure ())

theorem validSample (now : UInt64) (sample : HardwareSample) : Φ (validSample P now sample) :=
  h.bind h.get fun _ => h.bind (h.modify fun _ => rfl) fun _ =>
    h.bind (h.stopUnsafeAction _) fun _ => h.bind h.refreshClock fun _ =>
    h.bind (h.modify fun _ => rfl) fun _ => h.bind h.get fun _ => h.ite (h.pure _)
      (h.bind (h.recordSample _ _ _ _ _ _) fun _ => h.bind h.get fun _ => h.pure _)

theorem finish (status : OperationStatus) (phase : OperationPhase) (evidence : CompletionEvidence)
    (error : UInt32) : Φ (finish P status phase evidence error) :=
  h.bind h.get fun _ => h.bind (h.orFail _) fun _ => h.bind (h.orFail _) fun _ =>
    h.bind (h.audit _ _ _ _ _) fun _ => h.bind (h.commit _ _) fun _ => h.pure _

theorem completeDrive (a : Active) (result : ActuatorResult) (now : UInt64) :
    Φ (completeDrive P a result now) := by
  refine h.bind h.get fun c => ?_
  refine h.bind (h.modify fun _ => rfl) fun _ => h.bind h.get fun _ =>
    h.bind (h.scheduleRelockIf _ _ _) fun _ => h.bind ?release fun _ =>
    h.bind (h.commit _ _) fun _ => ?record
  case release => exact h.ite (h.bind (h.modify fun _ => rfl) fun _ => h.pure _) (h.pure _)
  case record =>
    exact h.bind h.get fun _ => h.ite (h.bind (h.auditAutomatic _ _ _ _) fun _ => h.commit _ _)
      (h.bind (h.orFail _) fun _ => h.bind (h.finish _ _ _ _) fun _ => h.pure _)

end Serving

/-- A confirmation is kept or given up, never made. -/
def KeepsOrDrops (c c' : Controller) : Prop :=
  c'.confirmation = c.confirmation ∨ c'.confirmation = none

instance : Std.Refl KeepsOrDrops := ⟨fun _ => .inl rfl⟩

instance : IsTrans Controller KeepsOrDrops where
  trans _ _ _ h h' := by
    rcases h' with same | none
    · unfold KeepsOrDrops
      rw [same]
      exact h
    · exact .inr none

/-- The pairing window is kept with its failures or given up, never opened. -/
def Narrows (c c' : Controller) : Prop :=
  c'.pairingUntil = none
    ∨ c'.pairingUntil = c.pairingUntil ∧ c'.pairingFailures = c.pairingFailures

instance : Std.Refl Narrows := ⟨fun _ => .inr ⟨rfl, rfl⟩⟩

instance : IsTrans Controller Narrows where
  trans _ _ _ h h' := by
    rcases h' with none | ⟨opened, failures⟩
    · exact .inl none
    · unfold Narrows
      rw [opened, failures]
      exact h

/-- Both: what the gestures at the device have opened is kept or given up. -/
def Retires (c c' : Controller) : Prop := KeepsOrDrops c c' ∧ Narrows c c'

instance : Std.Refl Retires := ⟨fun c => ⟨Std.Refl.refl c, Std.Refl.refl c⟩⟩

instance : IsTrans Controller Retires :=
  ⟨fun _ _ _ h h' => ⟨IsTrans.trans _ _ _ h.1 h'.1, IsTrans.trans _ _ _ h.2 h'.2⟩⟩

theorem Retires.kept (h : (c'.pairingUntil, c'.pairingFailures, c'.confirmation)
      = (c.pairingUntil, c.pairingFailures, c.confirmation)) : Retires c c' :=
  ⟨.inl (congrArg (·.2.2) h), .inr ⟨congrArg (·.1) h, congrArg (·.2.1) h⟩⟩

theorem Frozen.retires (h : Frozen c c') : Retires c c' :=
  .kept (congrArg (·.2.2) h)

/-- A property of every method that neither records a confirmation nor touches the pairing
window but to close it. A failure of a part may be handled, unless it poisoned the controller. -/
structure Acting (Φ : ∀ {α : Type}, Ctl α → Prop) : Prop extends Serving Φ where
  now : Φ now
  request : ∀ e, e ≠ .stopAction → Φ (request e)
  change : ∀ {g : Controller → Controller}, (∀ c, Retires c (g c)) →
    Φ (MonadState.modifyGet fun c => (PUnit.unit, g c) : Ctl PUnit)
  attempt : ∀ {α β : Type} {x : Ctl α} {k : Except Error α → Ctl β}, Φ x → (∀ r, Φ (k r)) →
    (∀ e c, e ≠ .sensorConflict → c.poisoned = true →
      (k (.error e)).run c = .pure (.error e, c)) → Φ (attempt x >>= k)

namespace Acting
variable {Φ : ∀ {α : Type}, Ctl α → Prop} (h : Acting Φ)
include h

theorem observeHardware (allow : Bool) : Φ (observeHardware P allow) := by
  refine h.bind h.now fun _ => h.bind (h.request _ nofun) fun sample => h.bind h.get fun c => ?_
  cases validateSample c sample with
  | ok => exact h.validSample _ _
  | error => exact h.sensorFault _

theorem hardwareChanged : Φ (hardwareChanged P) :=
  h.bind (h.observeHardware false) fun _ => h.pure ()

theorem boot : Φ boot := h.bind (h.request _ nofun) fun _ => h.failIf _ _

theorem prepareActuation (target : ActionTarget) : Φ (prepareActuation target) :=
  h.bind h.now fun _ => h.bind (h.request _ nofun) fun _ => h.bind h.get fun _ =>
    h.bind (h.orFail _) fun _ => h.ite (h.bind (h.change fun _ => .kept rfl) fun _ => h.pure _)
      (h.map _ (h.orFail _))

/-- The gesture needs more: that the property lets the window be opened. -/
theorem openPairingWindow (opens : ∀ until_, Φ (MonadState.modifyGet fun me : Controller =>
      (PUnit.unit, { me with pairingUntil := some until_, pairingFailures := 0 }) : Ctl PUnit)) :
    Φ openPairingWindow :=
  h.bind h.now fun _ => h.bind h.get fun _ => h.bind (h.failIf _ _) fun _ =>
    h.bind (h.orFail _) fun _ => opens _

theorem authorize (context : SessionContext) (cmd : Command) : Φ (authorize P context cmd) := by
  refine h.bind h.get fun _ => h.bind (h.orFail _) fun g => h.bind ?window fun _ =>
    h.bind h.get fun _ => h.bind (h.orFail _) fun _ => h.pure _
  case window => exact h.ite (h.bind (h.observeHardware _) fun _ => h.orFail _) (h.pure ())

/-- Recording a confirmation needs more: that the property lets it be stored. -/
theorem confirmPhysical (context : SessionContext) (cmd : Command)
    (store : ∀ k, Φ (MonadState.modifyGet fun me : Controller =>
      (PUnit.unit, { me with confirmation := some k }) : Ctl PUnit)) :
    Φ (confirmPhysical P context cmd) := by
  refine h.bind (h.authorize context cmd) fun _ => ?_
  have records : Φ (recordConfirmation P context cmd) :=
    h.bind h.now fun _ => h.bind (h.orFail _) fun _ => h.bind (h.orFail _) fun _ => store _
  cases cmd.action with
  | factoryReset | replaceIssuer => exact records
  | _ => exact h.throw _

/-- A claim needs that the property lets a wrong key be counted. -/
theorem claim (context : SessionContext) (key issuer : Bytes32) (admin : Bytes) (now : UInt64)
    (counts : Φ (wrongSetupKey : Ctl Reply)) : Φ (claim P context key issuer admin now) :=
  h.bind h.get fun _ => h.bind (h.failIf _ _) fun _ => h.bind (h.failIf _ _) fun _ =>
    h.ite counts <| h.bind (h.orFail _) fun _ => h.bind (h.orFail _) fun _ =>
    h.bind (h.failIf _ _) fun _ => h.bind (h.orFail _) fun _ => h.bind (h.recordWall _) fun _ =>
    h.bind (h.audit _ _ _ _ _) fun _ => h.bind (h.commit _ _) fun _ =>
    h.bind (h.change fun _ => ⟨.inr rfl, .inl rfl⟩) fun _ => h.bind h.get fun _ => h.pure _

theorem pairingStatus (now : UInt64) : Φ (pairingStatus now) :=
  h.bind h.get fun _ => h.bind (h.failIf _ _) fun _ => h.pure _

theorem query (g : Grant) (action : Action) : Φ (query g action) := by
  refine h.bind h.get fun c => ?_
  cases action with
  | status => exact h.map _ (h.bind h.wall fun _ => h.bind h.get fun _ => h.pure _)
  | operation | credentialStatus => exact h.bind (h.orFail _) fun _ => h.pure _
  | info | getConfig | readLog | firmwareStatus => exact h.pure _
  | _ => exact h.throw _

theorem confirmation (peer : SubjectKey) (digest : Bytes32) (now : UInt64) :
    Φ (Preflight.confirmation peer digest now) :=
  h.bind h.get fun _ => h.bind (h.change fun _ => ⟨.inr rfl, .inr ⟨rfl, rfl⟩⟩) fun _ =>
    h.bind (h.orFail _) fun _ => h.bind (h.failIf _ _) fun _ => h.failIf _ _

theorem preflightAction (cmd : Command) (clock : Option ClockSample) (now : UInt64)
    (digest : Bytes32) (peer : SubjectKey) : Φ (preflightAction P cmd clock now digest peer) := by
  refine h.bind h.get fun c => ?_
  cases cmd.action with
  | unlock | lock | setConfig | setClock | firmwareBegin | firmwareFinish | applyPolicy =>
    exact h.orFail _
  | reboot | rotateDeviceKey | firmwareAbort => exact h.failIf _ _
  | factoryReset => exact h.bind (h.failIf _ _) fun _ => h.confirmation _ _ _
  | replaceIssuer =>
    exact h.bind (h.failIf _ _) fun _ => h.bind (h.confirmation _ _ _) fun _ =>
      h.bind (h.orFail _) fun _ => h.pure ()
  | firmwareActivate =>
    exact h.bind (h.failIf _ _) fun _ => h.bind h.get fun _ => h.bind (h.failIf _ _) fun _ =>
      h.bind h.boot fun _ => h.bind (h.request _ nofun) fun _ => h.orFail _
  | firmwareChunk =>
    refine h.bind h.get fun _ => h.bind (h.orFail _) fun _ => h.ite ?_ (h.pure ())
    exact h.bind (h.failIf _ _) fun _ => h.bind h.boot fun _ => h.bind (h.request _ nofun) fun _ =>
      h.bind (h.orFail _) fun _ => h.failIf _ _
  | _ => exact h.pure ()

theorem preflight (g : Grant) (cmd : Command) (now : UInt64) (digest : Bytes32)
    (peer : SubjectKey) : Φ (preflight P g cmd now digest peer) :=
  h.bind (h.observeHardware _) fun _ => h.bind (h.orFail _) fun _ => h.preflightAction _ _ _ _ _

theorem startManual (status : OperationStatus) (target : ActionTarget) (deadline : UInt64) :
    Φ (Execute.startManual P status target deadline) := by
  refine h.bind (h.change fun _ => .kept rfl) fun _ => h.bind h.get fun _ =>
    h.bind (h.request _ nofun) fun r => ?_
  cases r with
  | ok => exact h.finish _ _ _ _
  | error => exact h.bind (h.change fun _ => .kept rfl) fun _ => h.finish _ _ _ _

theorem drive (status : OperationStatus) (action : Action) : Φ (Execute.drive P status action) := by
  refine h.bind (h.prepareActuation _) fun r => ?_
  cases r with
  | none => exact h.bind (h.finish _ _ _ _) fun _ => h.pure _
  | some => exact h.bind (h.startManual _ _ _) fun _ => h.pure _

theorem applyPolicy (status : OperationStatus) (bytes : Bytes) :
    Φ (Execute.applyPolicy P status bytes) :=
  h.bind h.get fun _ => h.bind (h.orFail _) fun _ => h.bind (h.orFail _) fun _ =>
    h.bind (h.orFail _) fun _ => h.bind (h.audit _ _ _ _ _) fun _ => h.ite
      (h.bind (h.commit _ _) fun _ =>
        h.bind (h.change fun _ => ⟨.inr rfl, .inr ⟨rfl, rfl⟩⟩) fun _ => h.pure _)
      (h.pure _)

theorem setClock (status : OperationStatus) (time : UInt64) :
    Φ (Execute.setClock P status time) :=
  h.bind (h.observeHardware _) fun _ => h.bind h.get fun _ => h.bind (h.failIf _ _) fun _ =>
    h.bind (h.commit _ _) fun _ => h.bind (h.request _ nofun) fun _ => h.bind (h.orFail _) fun _ =>
    h.bind h.get fun _ => h.map _ (h.audit _ _ _ _ _)

theorem auditFirmware (status : OperationStatus) (n : DeviceSnapshot) :
    Φ (Execute.auditFirmware status n) := h.map _ (h.audit _ _ _ _ _)

theorem executeAction (context : SessionContext) (cmd : Command) (status : OperationStatus)
    (now : UInt64) : Φ (executeAction P context cmd status now) := by
  unfold Controller.executeAction
  cases cmd.action with
  | unlock | lock => exact h.drive _ _
  | setConfig =>
    exact h.bind h.get fun _ => h.bind (h.dropRelockIf _ _) fun _ =>
      h.bind (h.scheduleRelockIf _ _ _) fun _ => h.map _ (h.audit _ _ _ _ _)
  | applyPolicy => exact h.applyPolicy _ _
  | setClock => exact h.setClock _ _
  | reboot =>
    exact h.bind h.get fun _ => h.bind (h.request _ nofun) fun _ => h.bind (h.orFail _) fun _ =>
      h.map _ (h.audit _ _ _ _ _)
  | factoryReset =>
    exact h.bind h.get fun _ => h.bind (h.orFail _) fun _ => h.bind (h.orFail _) fun _ =>
      h.bind (h.commit _ _) fun _ => h.bind (h.change fun _ => ⟨.inr rfl, .inl rfl⟩) fun _ =>
      h.pure _
  | replaceIssuer =>
    exact h.bind h.get fun _ => h.bind (h.orFail _) fun _ => h.bind (h.orFail _) fun _ =>
      h.bind (h.audit _ _ _ _ _) fun _ => h.bind (h.commit _ _) fun _ =>
      h.bind (h.change fun _ => ⟨.inr rfl, .inr ⟨rfl, rfl⟩⟩) fun _ => h.pure _
  | firmwareBegin =>
    exact h.bind h.get fun _ => h.bind (h.orFail _) fun _ => h.bind h.boot fun _ =>
      h.bind (h.request _ nofun) fun _ => h.bind (h.orFail _) fun _ => h.auditFirmware _ _
  | firmwareChunk =>
    exact h.bind h.get fun _ => h.ite (h.bind h.boot fun _ => h.bind (h.request _ nofun) fun _ =>
      h.bind (h.orFail _) fun _ => h.auditFirmware _ _) (h.auditFirmware _ _)
  | firmwareFinish =>
    exact h.bind h.get fun _ => h.bind (h.orFail _) fun _ => h.bind h.boot fun _ =>
      h.bind (h.request _ nofun) fun _ => h.bind (h.orFail _) fun _ => h.bind (h.failIf _ _)
      fun _ => h.auditFirmware _ _
  | firmwareActivate =>
    exact h.bind h.get fun _ => h.bind (h.orFail _) fun _ => h.bind (h.commit _ _) fun _ =>
      h.bind h.get fun _ => h.bind h.boot fun _ => h.bind (h.request _ nofun) fun _ =>
      h.bind (h.orFail _) fun _ => h.bind h.get fun _ => h.auditFirmware _ _
  | firmwareAbort =>
    exact h.bind h.get fun _ => h.bind (h.audit _ _ _ _ _) fun _ => h.bind (h.commit _ _) fun _ =>
      h.bind h.boot fun _ => h.bind (h.request _ nofun) fun _ => h.bind (h.orFail _) fun _ =>
      h.pure _
  | rotateDeviceKey =>
    exact h.bind (h.observeHardware _) fun _ => h.bind (h.orFail _) fun _ => h.bind h.get fun _ =>
      h.bind (h.orFail _) fun _ => h.bind (h.orFail _) fun _ => h.bind (h.request _ nofun) fun _ =>
      h.bind (h.failIf _ _) fun _ => h.bind (h.orFail _) fun _ => h.pure _
  | _ => exact h.throw _

theorem execute (context : SessionContext) (cmd : Command) (status : OperationStatus)
    (now : UInt64) : Φ (execute P context cmd status now) := by
  refine h.bind (h.executeAction _ _ _ _) fun r => ?_
  cases r with
  | done => exact h.pure _
  | commit => exact h.bind (h.commit _ _) fun _ => h.pure _

theorem accept (cmd : Command) (g : Grant) (seq now : UInt64) (digest : Bytes32)
    (status : OperationStatus) : Φ (accept P cmd g seq now digest status) :=
  h.bind h.get fun _ => h.bind (h.orFail _) fun _ => h.bind (h.recordWall _) fun _ =>
    h.bind (h.scheduleRelockIf _ _ _) fun _ => h.bind (h.dropRelockIf _ _) fun _ =>
    h.bind (h.audit _ _ _ _ _) fun _ => h.bind (h.commit _ _) fun _ => h.pure _

theorem acceptAndExecute (context : SessionContext) (cmd : Command) (g : Grant)
    (seq now : UInt64) (digest : Bytes32) :
    Φ (acceptAndExecute P context cmd g seq now digest) := by
  refine h.bind (h.accept _ _ _ _ _ _) fun done => h.ite (h.finish _ _ _ _) ?_
  refine h.attempt (h.execute _ _ _ _) (fun r => ?_) ?_
  · cases r with
    | error => exact h.bind h.get fun _ => h.ite (h.throw _) (h.finish _ _ _ _)
    | ok r =>
      cases r with
      | none => exact h.finish _ _ _ _
      | some => exact h.pure _
  · intro e c _ poisoned
    change (if c.poisoned then _ else _ : Ctl Reply).run c = _
    rw [if_pos poisoned]
    rfl

theorem mutate (context : SessionContext) (cmd : Command) (g : Grant) (now : UInt64) :
    Φ (mutate P context cmd g now) := by
  refine h.bind (h.orFail _) fun _ => h.bind (h.orFail _) fun _ => h.bind h.get fun _ =>
    h.ite (h.orFail _) ?_
  refine h.bind (h.preflight _ _ _ _ _) fun _ => h.bind h.get fun _ => h.bind (h.orFail _) fun _ =>
    h.ite ?_ (h.acceptAndExecute _ _ _ _ _ _)
  exact h.bind (h.execute _ _ _ _) fun _ => h.orFail _

theorem serviceHazards : Φ (serviceHazards P) := by
  refine h.attempt h.hardwareChanged (fun r => ?_) fun e c other _ => ?_
  · cases r with
    | ok => exact h.pure ()
    | error => exact h.failIf _ _
  · change (if e ≠ .sensorConflict then _ else _ : Ctl Unit).run c = _
    rw [if_pos other]
    rfl

theorem dispatch (context : SessionContext) (cmd : Command)
    (counts : (∃ key issuer admin, cmd.action = .claim key issuer admin) →
      Φ (wrongSetupKey : Ctl Reply)) : Φ (dispatch P context cmd) := by
  refine h.bind h.serviceHazards fun _ => h.bind h.now fun _ =>
    h.bind (h.orFail _) fun _ => h.bind (h.orFail _) fun _ => h.bind h.get fun _ =>
    h.bind (h.failIf _ _) fun _ => h.bind (h.failIf _ _) fun _ => ?_
  cases action : cmd.action with
  | pairingStatus => exact h.pairingStatus _
  | claim => exact h.claim _ _ _ _ _ (counts ⟨_, _, _, action⟩)
  | _ => exact h.bind (h.authorize _ _) fun _ => h.ite (h.mutate _ _ _ _) (h.query _ _)

theorem actuatorFinished (id : ActuationId) (result : ActuatorResult) :
    Φ (actuatorFinished P id result) := by
  refine h.bind h.now fun _ => h.bind h.get fun _ => h.bind (h.failIf _ _) fun _ =>
    h.bind h.hardwareChanged fun _ => h.bind h.get fun c => ?_
  cases c.active with
  | none => exact h.pure ()
  | some => exact h.completeDrive _ _ _

theorem reconcileBoot : Φ (reconcileBoot P) := by
  refine h.bind h.get fun c => h.ite (h.pure ()) ?_
  refine h.bind (h.orFail _) fun m => h.bind h.boot fun _ => h.bind (h.request _ nofun) fun _ =>
    h.bind (h.orFail _) fun outcome => ?_
  cases bootResult c.state m outcome with
  | none => exact h.pure ()
  | some =>
    exact h.bind (h.ite (h.change fun _ => .kept rfl) (h.pure ())) fun _ =>
      h.bind (h.audit _ _ _ _ _) fun _ => h.commit _ _

theorem startAutomatic (deadline : UInt64) : Φ (startAutomatic deadline) := by
  refine h.bind (h.change fun _ => .kept rfl) fun _ => h.bind h.get fun _ =>
    h.bind (h.request _ nofun) fun r => ?_
  cases r with
  | ok => exact h.pure ()
  | error => exact h.bind (h.change fun _ => .kept rfl) fun _ => h.throw _

theorem automaticRelock : Φ (automaticRelock P) := by
  have ended : ∀ phase evidence error, Φ (endAutomatic P phase evidence error) := fun _ _ _ =>
    h.bind h.get fun _ => h.bind (h.auditAutomatic _ _ _ _) fun _ => h.commit _ _
  refine h.bind h.get fun _ => h.bind (h.auditAutomatic _ _ _ _) fun _ => h.bind (h.commit _ _)
    fun _ => h.bind (h.change fun _ => .kept rfl) fun _ => ?_
  refine h.attempt (h.prepareActuation _) (fun r => ?_) ?_
  · cases r with
    | error => exact h.bind h.get fun _ => h.ite (h.throw _) (h.bind (ended _ _ _) fun _ => h.throw _)
    | ok r =>
      cases r with
      | none => exact ended _ _ _
      | some => exact h.startAutomatic _
  · intro e c _ poisoned
    change (if c.poisoned then _ else _ : Ctl Unit).run c = _
    rw [if_pos poisoned]
    rfl

theorem poll : Φ (poll P) := by
  refine h.bind h.now fun _ => h.bind h.hardwareChanged fun _ => h.bind h.reconcileBoot fun _ =>
    h.bind ?remind fun _ => h.bind h.get fun _ => h.ite h.automaticRelock (h.pure ())
  case remind =>
    exact h.bind h.get fun _ => h.ite (h.bind (h.change fun _ => .kept rfl) fun _ =>
      h.bind (h.audit _ _ _ _ _) fun _ => h.commit _ _) (h.pure ())

end Acting

/-- The effects that service a reading. -/
def Effect.services : Effect → Prop
  | .wallClock | .submit _ | .commit _ | .stopAction => True
  | _ => False

section Frame
variable {K : Effect → Prop} {R : Controller → Controller → Prop} [Std.Refl R]

theorem Effects.StaysE.request {e : Effect} (h : K e) : StaysE K R (request e) :=
  fun c => ⟨h, fun _ => Std.Refl.refl c⟩

variable [IsTrans Controller R]

theorem Effects.StaysE.stopPoisonedAction (stop : K .stopAction)
    (frame : ∀ c c', Frozen c c' → R c c') : StaysE K R stopPoisonedAction := by
  refine .bind .get fun _ => .ite (.bind (.request stop) fun r => ?_) (.pure ())
  cases r with
  | ok => exact .modify fun _ => frame _ _ rfl
  | error => exact .pure ()

theorem Effects.StaysE.poison (stop : K .stopAction) (frame : ∀ c c', Frozen c c' → R c c') :
    StaysE K R poison :=
  .bind (.modify fun _ => frame _ _ rfl) fun _ => .stopPoisonedAction stop frame

/-- What keeps everything but the serviced fields is kept by every servicing method. -/
theorem Effects.StaysE.serving (effects : ∀ e, e.services → K e) (frame : ∀ c c', Frozen c c' → R c c') :
    Serving (StaysE K R) where
  pure := .pure
  throw := .throw
  get := .get
  bind := .bind
  modify h := .modify fun c => frame _ _ (h c)
  wallClock := .request (effects _ trivial)
  commit P n := by
    refine .bind .get fun c => .bind (.ite (.throw _) (.pure ())) fun _ =>
      .bind (.request (effects _ trivial)) fun _ => .bind (.ite (.throw _) (.pure ())) fun _ =>
      .bind (fun c => Std.Refl.refl c) fun _ => .bind (.request (effects _ trivial)) fun r => ?_
    cases r with
    | ok => exact .modify fun _ => frame _ _ rfl
    | lost | written => exact .bind (.poison (effects _ trivial) frame) fun _ => .throw _
  requireStop := by
    refine .bind (.request (effects _ trivial)) fun r => ?_
    cases r with
    | ok => exact .modify fun _ => frame _ _ rfl
    | error => exact .bind (.modify fun _ => frame _ _ rfl) fun _ => .throw _

/-- What may lose what the gestures have opened is kept by every acting method. -/
theorem Effects.StaysE.acting (retires : ∀ c c', Retires c c' → R c c') :
    Acting (StaysE (fun _ : Effect => True) R) where
  toServing := StaysE.serving (fun _ _ => trivial) fun c c' frozen => retires c c' frozen.retires
  now := by
    have frame : ∀ c c', Frozen c c' → R c c' := fun c c' frozen => retires c c' frozen.retires
    refine .bind .get fun c => .ite ?_ (.bind (.request trivial) fun t => .ite ?_ ?_)
    · exact .bind (.stopPoisonedAction trivial frame) fun _ => .throw _
    · exact .bind (.poison trivial frame) fun _ => .throw _
    · exact .bind (.modify fun _ => retires _ _ (.kept rfl)) fun _ => .pure _
  request _ _ := .request trivial
  change h c := retires c _ (h c)
  attempt hx hk _ := by
    refine .bind (fun c => ?_) hk
    exact (hx c).bind fun r moved => moved

end Frame

section Gestures
variable {R : Controller → Controller → Prop}

private theorem returning_stays (h : StaysE (fun _ : Effect => True) R x) (c : Controller) :
    (Method.returning x c).Stays (fun _ => True) fun r => R c r.2 := by
  change Prog.Stays _ _ ((x.run c).bind _)
  exact (h c).bind fun _ moved => moved

variable [Std.Refl R] [IsTrans Controller R]

private theorem handle_stays (acting : Acting (StaysE (fun _ : Effect => True) R))
    (context : SessionContext) (cmd : Command)
    (counts : (∃ key issuer admin, cmd.action = .claim key issuer admin) →
      StaysE (fun _ : Effect => True) R (wrongSetupKey : Ctl Reply)) (c : Controller) :
    (handle P context cmd c).Stays (fun _ => True) fun r => R c r.2 := by
  change Prog.Stays _ _ (((dispatch P context cmd).run c).bind _)
  refine (acting.dispatch context cmd counts c).bind ?_
  rintro ⟨r, c'⟩ moved
  cases r with
  | ok => exact moved
  | error e =>
    change Prog.Stays _ _ ((if ¬ c'.poisoned ∧ c'.state.owner.isSome then _ else _ :
      StateT Controller (Prog Answer) Response) c')
    split
    · have audited : StaysE (fun _ : Effect => True) R (auditRejection P e.code) :=
        .bind .get fun _ => .bind (acting.audit _ _ _ _ _) fun _ => acting.commit _ _
      change Prog.Stays _ _ (((auditRejection P e.code).run c').bind _)
      refine (audited c').bind ?_
      rintro ⟨r, c''⟩ more
      have both : R c c'' := IsTrans.trans _ _ _ moved more
      cases r <;> exact both
    · exact moved

/-- Only a physical confirmation can make one. -/
theorem method_keepsOrDrops (m : Method) (other : ∀ context cmd, m ≠ .confirmPhysical context cmd)
    (c : Controller) : (m.program P c).Stays (fun _ => True) fun r => KeepsOrDrops c r.2 := by
  have acting : Acting (StaysE (fun _ : Effect => True) KeepsOrDrops) :=
    StaysE.acting fun _ _ h => h.1
  have counts : StaysE (fun _ : Effect => True) KeepsOrDrops (wrongSetupKey : Ctl Reply) :=
    .bind (.modify fun _ => .inl rfl) fun _ => .bind (.modify fun _ => .inl rfl) fun _ => .throw _
  cases m with
  | handle context cmd =>
    exact (handle_stays acting context cmd (fun _ => counts) c).bind fun _ moved => moved
  | handleLocal peer cmd =>
    exact (handle_stays acting (c.context peer) cmd (fun _ => counts) c).bind fun _ moved => moved
  | confirmPhysical context cmd => exact absurd rfl (other context cmd)
  | openPairingWindow => exact returning_stays (acting.openPairingWindow fun _ _ => .inl rfl) c
  | hardwareChanged => exact returning_stays acting.hardwareChanged c
  | actuatorFinished id result => exact returning_stays (acting.actuatorFinished id result) c
  | poll => exact returning_stays acting.poll c

/-- Only the pairing gesture opens the window, and only claims count against it. -/
theorem method_narrows (m : Method) (other : m ≠ .openPairingWindow) (c : Controller)
    (unclaimed : ∀ context cmd, Call.request (.method m) (some c) = some (context, cmd) →
      ∀ key issuer admin, cmd.action ≠ .claim key issuer admin) :
    (m.program P c).Stays (fun _ => True) fun r => Narrows c r.2 := by
  have acting : Acting (StaysE (fun _ : Effect => True) Narrows) := StaysE.acting fun _ _ h => h.2
  have counts : ∀ context cmd, Call.request (.method m) (some c) = some (context, cmd) →
      (∃ key issuer admin, cmd.action = .claim key issuer admin) →
      StaysE (fun _ : Effect => True) Narrows (wrongSetupKey : Ctl Reply) :=
    fun context cmd asked ⟨key, issuer, admin, action⟩ =>
      absurd action (unclaimed context cmd asked key issuer admin)
  cases m with
  | handle context cmd =>
    exact (handle_stays acting context cmd (counts _ _ rfl) c).bind fun _ moved => moved
  | handleLocal peer cmd =>
    exact (handle_stays acting (c.context peer) cmd (counts _ _ rfl) c).bind fun _ moved => moved
  | confirmPhysical context cmd =>
    exact returning_stays (acting.confirmPhysical context cmd fun _ _ => .inr ⟨rfl, rfl⟩) c
  | openPairingWindow => exact absurd rfl other
  | hardwareChanged => exact returning_stays acting.hardwareChanged c
  | actuatorFinished id result => exact returning_stays (acting.actuatorFinished id result) c
  | poll => exact returning_stays acting.poll c

/-- What a constructor returns holds no confirmation and no pairing window. -/
def Rebooted (r : Except Error Controller) : Prop :=
  ∀ c, r = .ok c → c.confirmation = none ∧ c.pairingUntil = none

private theorem rebooted_bind {α : Type} {x : Init α} {g : α → Init Controller}
    (next : ∀ a, (g a).run.Stays (fun _ => True) Rebooted) :
    (x >>= g).run.Stays (fun _ => True) Rebooted := by
  change Prog.Stays _ _ (x.run.bind _)
  refine (Prog.Stays.any x.run).bind fun r _ => ?_
  cases r with
  | ok a => exact next a
  | error e => exact fun _ h => by cases h

private theorem recover_retires (sample : HardwareSample) (interrupted : Bool) :
    StaysE (fun _ : Effect => True) Retires (recover P sample interrupted) := by
  have acting : Acting (StaysE (fun _ : Effect => True) Retires) := StaysE.acting fun _ _ h => h
  refine .bind .get fun c => .bind (acting.orFail _) fun _ => .bind .get fun c => .bind ?_ fun n =>
    .bind (acting.commit P n) fun _ => .bind .get fun c => .bind ?_ fun _ => acting.reconcileBoot
  · exact acting.ite (.bind (.modify fun _ => .kept rfl) fun _ => acting.auditAutomatic _ _ _ _)
      (.pure _)
  · refine acting.ite (.bind (acting.orFail _) fun _ => ?_) (.pure _)
    exact .modify fun _ => .kept rfl

private theorem openStopped_rebooted (f : FactoryIdentity) :
    (openStopped P f).run.Stays (fun _ => True) Rebooted := by
  refine rebooted_bind fun _ => rebooted_bind fun _ => rebooted_bind fun _ =>
    rebooted_bind fun _ => rebooted_bind fun _ => rebooted_bind fun _ =>
    rebooted_bind fun sample => rebooted_bind fun lastMono => ?_
  change Prog.Stays _ _ (((recover P sample _).run _).bind _)
  refine (recover_retires sample _ _).bind ?_
  rintro ⟨r, c'⟩ ⟨confirmation, window⟩
  cases r with
  | ok =>
    rintro _ ⟨⟩
    exact ⟨confirmation.elim id id, window.elim id And.left⟩
  | error e => exact fun _ h => by cases h

private theorem install_rebooted (f : FactoryIdentity) (n : DeviceSnapshot) :
    (install P f n).run.Stays (fun _ => True) Rebooted :=
  rebooted_bind fun _ => rebooted_bind fun _ => rebooted_bind fun _ =>
    rebooted_bind fun _ => rebooted_bind fun _ => rebooted_bind fun _ =>
    rebooted_bind fun _ => rebooted_bind fun _ => openStopped_rebooted f

/-- A reboot leaves nothing of the gestures before it. -/
theorem constructor_rebooted (k : Constructor) (f : FactoryIdentity) :
    (k.program P f).run.Stays (fun _ => True) Rebooted := by
  cases k with
  | provision => exact install_rebooted f _
  | migrateLegacy legacy issuer firstAdmin => exact install_rebooted f _
  | «open» => exact rebooted_bind fun _ => rebooted_bind fun _ => openStopped_rebooted f

end Gestures

/-- A failed stop of the actuator. -/
def FailedStop (ev : Event Answer) : Prop := ∃ e, ev = ⟨.stopAction, .error e⟩

/-- How a method fails after that. -/
def Dead (e : Error) (c : Controller) : Prop := e ≠ .sensorConflict ∧ c.poisoned = true

section Fatal
variable {e : Error} {c : Controller}

theorem Effects.EndsE.request {e : Effect} (other : e ≠ .stopAction) :
    EndsE FailedStop Dead (request e) := by
  refine fun c x => ⟨?_, trivial⟩
  rintro ⟨_, same⟩
  exact absurd (congrArg Event.effect same) other

/-- Retrying the stop of a poisoned controller and failing. -/
theorem retryStop_ends (other : e ≠ .sensorConflict) (poisoned : c.poisoned = true) :
    (retryStop c (.error e : Except Error α)).Ends FailedStop
      fun r => ∃ e, r.1 = .error e ∧ Dead e r.2 := by
  unfold retryStop
  cases c.active with
  | none => exact trivial
  | some a =>
    intro x
    cases x with
    | ok => exact ⟨fun ⟨_, h⟩ => (by cases h), trivial⟩
    | error => exact ⟨fun _ => ⟨_, rfl, e, rfl, other, poisoned⟩, trivial⟩

theorem stop_throw_ends (other : e ≠ .sensorConflict) (poisoned : c.poisoned = true) :
    ((do stopPoisonedAction; throw e : Ctl α).run c).Ends FailedStop
      fun r => ∃ e, r.1 = .error e ∧ Dead e r.2 := by
  have retries : Retries (do stopPoisonedAction; throw e : Ctl α) c e := by
    change (stopPoisonedAction.run c).bind _ = _
    rw [stopPoisonedAction_run]
    exact retryStop_bind _ _ _ fun _ => rfl
  rw [retries]
  exact retryStop_ends other poisoned

theorem poison_throw_ends (other : e ≠ .sensorConflict) :
    EndsE FailedStop Dead (do poison; throw e : Ctl α) := by
  intro c
  exact stop_throw_ends other (c := { c with poisoned := true }) rfl

/-- After a failed stop every method fails at once. -/
theorem Effects.EndsE.acting : Acting (EndsE FailedStop Dead) where
  pure := .pure
  throw := .throw
  get := .get
  bind := .bind
  modify _ := .modify _
  wallClock := .request nofun
  commit P n := by
    refine .bind .get fun c => .bind (.ite (.throw _) (.pure ())) fun _ =>
      .bind (.request nofun) fun _ => .bind (.ite (.throw _) (.pure ())) fun _ =>
      .bind (fun c => trivial) fun _ => .bind (.request nofun) fun r => ?_
    cases r with
    | ok => exact .modify _
    | lost | written => exact poison_throw_ends (by decide)
  requireStop := by
    intro c x
    cases x with
    | ok => exact ⟨fun ⟨_, h⟩ => (by cases h), trivial⟩
    | error => exact ⟨fun _ => ⟨_, rfl, _, rfl, nofun, rfl⟩, trivial⟩
  now := by
    intro c
    change Prog.Ends _ _ ((if c.poisoned then _ else _ : Ctl UInt64).run c)
    split
    · rename_i poisoned
      exact stop_throw_ends (by decide) poisoned
    · have reads : EndsE FailedStop Dead (Controller.request .monotonicMs) := .request nofun
      have fails : EndsE FailedStop Dead (do poison; MonadExcept.throw .clockUntrusted : Ctl UInt64) :=
        poison_throw_ends nofun
      exact reads.bind (fun t => .ite fails (.bind (.modify _) fun _ => .pure _)) c
  request _ other := .request other
  change _ := .modify _
  attempt hx hk last := by
    intro c
    change Prog.Ends _ _ ((Prog.bind _ _).bind _)
    rw [Prog.bind_assoc]
    refine (hx c).bind ?_ ?_
    · rintro ⟨_, c'⟩ ⟨e, rfl, other, poisoned⟩
      exact ⟨(.error e, c'), last e c' other poisoned, e, rfl, other, poisoned⟩
    · rintro ⟨r, c'⟩
      exact hk r c'

private theorem returning_ends (h : EndsE FailedStop Dead x) (c : Controller) :
    (Method.returning x c).Ends FailedStop fun _ => True := by
  change Prog.Ends _ _ ((x.run c).bind _)
  exact (h c).bind (fun a _ => ⟨_, rfl, trivial⟩) fun _ => trivial

theorem handle_ends (context : SessionContext) (cmd : Command) (c : Controller) :
    (handle P context cmd c).Ends FailedStop fun _ => True := by
  have acting := EndsE.acting
  change Prog.Ends _ _ (((dispatch P context cmd).run c).bind _)
  have counts : EndsE FailedStop Dead (wrongSetupKey : Ctl Reply) :=
    .bind (.modify _) fun _ => .bind (.modify _) fun _ => .throw _
  refine (acting.dispatch context cmd (fun _ => counts) c).bind ?_ ?_
  · rintro ⟨_, c'⟩ ⟨e, rfl, _, poisoned⟩
    refine ⟨(⟨cmd.action.opcode, .error e.code⟩, c'), ?_, trivial⟩
    change (if ¬ c'.poisoned ∧ c'.state.owner.isSome then _ else _ :
      StateT Controller (Prog Answer) Response) c' = _
    rw [if_neg fun h => h.1 poisoned]
    rfl
  · rintro ⟨r, c'⟩
    cases r with
    | ok => exact trivial
    | error e =>
      change Prog.Ends _ _ ((if ¬ c'.poisoned ∧ c'.state.owner.isSome then _ else _ :
        StateT Controller (Prog Answer) Response) c')
      split
      · have audited : EndsE FailedStop Dead (auditRejection P e.code) :=
          .bind .get fun _ => .bind (acting.audit _ _ _ _ _) fun _ => acting.commit _ _
        change Prog.Ends _ _ (((auditRejection P e.code).run c').bind _)
        refine (audited c').bind ?_ ?_
        · rintro ⟨_, c''⟩ ⟨e', rfl, _⟩
          exact ⟨_, rfl, trivial⟩
        · rintro ⟨r, c''⟩
          cases r <;> exact trivial
      · exact trivial

/-- No method does anything after a failed stop. -/
theorem method_ends (m : Method) (c : Controller) :
    (m.program P c).Ends FailedStop fun _ => True := by
  have acting := EndsE.acting
  cases m with
  | handle context cmd =>
    exact (handle_ends context cmd c).bind (fun a _ => ⟨_, rfl, trivial⟩) fun _ => trivial
  | handleLocal peer cmd =>
    exact (handle_ends (c.context peer) cmd c).bind (fun a _ => ⟨_, rfl, trivial⟩) fun _ => trivial
  | confirmPhysical context cmd =>
    exact returning_ends (acting.confirmPhysical context cmd fun _ => .modify _) c
  | openPairingWindow => exact returning_ends (acting.openPairingWindow fun _ => .modify _) c
  | hardwareChanged => exact returning_ends acting.hardwareChanged c
  | actuatorFinished id result => exact returning_ends (acting.actuatorFinished id result) c
  | poll => exact returning_ends acting.poll c

end Fatal

end OpenLock
