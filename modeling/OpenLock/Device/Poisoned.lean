import OpenLock.Device.Run

/-! A poisoned controller. Every method that reaches the clock retries the stop of a drive
it still owns and fails; no method does anything else. -/
namespace OpenLock
open Controller Effects

variable {P : Primitives} {c : Controller} {α β : Type} {context : SessionContext} {g : Grant}
  {cmd : Command} {x : Ctl α} {e : Error}

/-- Retry the stop of an owned drive, give it up on success, and return `out`. -/
def retryStop (c : Controller) (out : α) : Prog Answer (α × Controller) :=
  match c.active with
  | none => .pure (out, c)
  | some _ => .op .stopAction fun
    | .ok _ => .pure (out, { c with active := none })
    | .error _ => .pure (out, c)

/-- The method retries the stop and fails with `e`. -/
def Retries (x : Ctl α) (c : Controller) (e : Error) : Prop := x.run c = retryStop c (.error e)

theorem retryStop_bind (out : α) (g : α × Controller → Prog Answer (β × Controller)) (out' : β)
    (same : ∀ active, g (out, { c with active }) = .pure (out', { c with active })) :
    (retryStop c out).bind g = retryStop c out' := by
  unfold retryStop
  cases active : c.active with
  | none =>
    have h := same none
    rw [← active] at h
    exact h
  | some a =>
    refine congrArg (Prog.op Effect.stopAction) (funext fun r => ?_)
    cases r with
    | ok => exact same none
    | error =>
      have h := same c.active
      exact h

theorem Retries.bind (h : Retries x c e) (g : α → Ctl β) : Retries (x >>= g) c e := by
  change (x.run c).bind _ = _
  rw [h]
  exact retryStop_bind _ _ _ fun _ => rfl

theorem stopPoisonedAction_run : stopPoisonedAction.run c = retryStop c (.ok ()) := by
  change (if c.active.isSome then _ else _ : Ctl Unit).run c = _
  unfold retryStop
  cases c.active with
  | none => rfl
  | some a =>
    refine congrArg (Prog.op Effect.stopAction) (funext fun r => ?_)
    cases r with
    | ok => rfl
    | error => rfl

theorem now_retries (poisoned : c.poisoned = true) : Retries now c .storageUnavailable := by
  change (if c.poisoned then _ else _ : Ctl UInt64).run c = _
  rw [if_pos poisoned]
  change (stopPoisonedAction.run c).bind _ = _
  rw [stopPoisonedAction_run]
  exact retryStop_bind _ _ _ fun _ => rfl

theorem observeHardware_retries (poisoned : c.poisoned = true) (allow : Bool) :
    Retries (observeHardware P allow) c .storageUnavailable :=
  (now_retries poisoned).bind _

theorem hardwareChanged_retries (poisoned : c.poisoned = true) :
    Retries (hardwareChanged P) c .storageUnavailable :=
  (observeHardware_retries poisoned false).bind _

theorem dispatch_retries (poisoned : c.poisoned = true) (context : SessionContext)
    (cmd : Command) : Retries (dispatch P context cmd) c .storageUnavailable := by
  have service : Retries (serviceHazards P) c .storageUnavailable := by
    change (((hardwareChanged P).run c).bind _).bind _ = _
    rw [hardwareChanged_retries poisoned, Prog.bind_assoc]
    exact retryStop_bind _ _ _ fun _ => rfl
  exact service.bind _

/-- What a method returns when the controller is poisoned. -/
def refusal : Method → Output
  | .handle _ cmd | .handleLocal _ cmd =>
    .response ⟨cmd.action.opcode, .error Error.storageUnavailable.code⟩
  | _ => .result (.error .storageUnavailable)

theorem handle_retries (poisoned : c.poisoned = true) (context : SessionContext)
    (cmd : Command) : handle P context cmd c =
      retryStop c ⟨cmd.action.opcode, .error Error.storageUnavailable.code⟩ := by
  change ((dispatch P context cmd).run c).bind _ = _
  rw [dispatch_retries poisoned]
  refine retryStop_bind _ _ _ fun active => ?_
  change (if ¬ c.poisoned ∧ c.state.owner.isSome then _ else _ :
    StateT Controller (Prog Answer) Response) { c with active } = _
  rw [if_neg fun h => h.1 poisoned]
  rfl

theorem returning_retries {x : Ctl Unit} (h : Retries x c .storageUnavailable) :
    Method.returning x c = retryStop c (.result (.error .storageUnavailable)) := by
  change (x.run c).bind _ = _
  rw [h]
  exact retryStop_bind _ _ _ fun _ => rfl

/-- Whether a call gets as far as the clock. Every method begins there except
`confirm_physical`, which first checks the grant, and then the binding and the action when
the grant has no window to compare with the clock. -/
def reachesClock (P : Primitives) (c : Controller) : Method → Bool
  | .confirmPhysical context cmd =>
    match checkGrant P c.state context cmd with
    | .error _ => false
    | .ok g => g.validity.isSome || (match checkBinding P c.state g cmd, cmd.action with
      | .ok _, .factoryReset | .ok _, .replaceIssuer _ => true
      | _, _ => false)
  | _ => true

theorem checkWindow_retries (poisoned : c.poisoned = true) (window : g.validity.isSome = true) :
    Retries (checkWindow P g) c .storageUnavailable := by
  unfold checkWindow
  rw [if_pos window]
  exact (observeHardware_retries poisoned true).bind _

/-- `authorize` without a window decides from the snapshot alone. -/
theorem authorize_run (grant : checkGrant P c.state context cmd = .ok g)
    (always : g.validity.isSome = false) :
    (authorize P context cmd).run c =
      .pure ((checkBinding P c.state g cmd).map fun _ => g, c) := by
  change (orFail (checkGrant P c.state context cmd) >>= _ : Ctl Grant).run c = _
  rw [grant]
  change (checkWindow P g >>= _ : Ctl Grant).run c = _
  have skip : checkWindow P g = pure () := by
    unfold checkWindow
    rw [if_neg (by rw [always]; exact Bool.false_ne_true)]
  rw [skip]
  change (orFail (checkBinding P c.state g cmd) >>= _ : Ctl Grant).run c = _
  cases checkBinding P c.state g cmd with
  | ok => rfl
  | error => rfl

theorem authorize_retries (poisoned : c.poisoned = true)
    (grant : checkGrant P c.state context cmd = .ok g) (window : g.validity.isSome = true) :
    Retries (authorize P context cmd) c .storageUnavailable := by
  change (orFail (checkGrant P c.state context cmd) >>= _ : Ctl Grant).run c = _
  rw [grant]
  exact (checkWindow_retries poisoned window).bind _

theorem confirmPhysical_retries (poisoned : c.poisoned = true) (context : SessionContext)
    (cmd : Command) (reaches : reachesClock P c (.confirmPhysical context cmd) = true) :
    Retries (confirmPhysical P context cmd) c .storageUnavailable := by
  simp only [reachesClock] at reaches
  cases grant : checkGrant P c.state context cmd with
  | error e => simp [grant] at reaches
  | ok g =>
    rw [grant] at reaches
    cases window : g.validity.isSome with
    | true => exact (authorize_retries poisoned grant window).bind _
    | false =>
      have record : Retries (recordConfirmation P context cmd) c .storageUnavailable :=
        (now_retries poisoned).bind _
      change ((authorize P context cmd).run c).bind _ = _
      rw [authorize_run grant window]
      simp only [window, Bool.false_or] at reaches
      split at reaches
      · rename_i bound action
        rw [bound, action]
        exact record
      · rename_i bound action
        rw [bound, action]
        exact record
      · cases reaches

/-- On a poisoned controller a method that reaches the clock only retries the stop. -/
theorem method_retries (poisoned : c.poisoned = true) (m : Method)
    (reaches : reachesClock P c m = true) : m.program P c = retryStop c (refusal m) := by
  cases m with
  | handle context cmd =>
    change (handle P context cmd c).bind _ = _
    rw [handle_retries poisoned]
    exact retryStop_bind _ _ _ fun _ => rfl
  | handleLocal peer cmd =>
    change (handle P (c.context peer) cmd c).bind _ = _
    rw [handle_retries poisoned]
    exact retryStop_bind _ _ _ fun _ => rfl
  | confirmPhysical context cmd =>
    exact returning_retries (confirmPhysical_retries poisoned context cmd reaches)
  | openPairingWindow => exact returning_retries ((now_retries poisoned).bind _)
  | hardwareChanged => exact returning_retries (hardwareChanged_retries poisoned)
  | actuatorFinished id result => exact returning_retries ((now_retries poisoned).bind _)
  | poll => exact returning_retries ((now_retries poisoned).bind _)

/-- The method fails with `e` and does nothing. -/
def Rejects (x : Ctl α) (c : Controller) (e : Error) : Prop := x.run c = .pure (.error e, c)

theorem Rejects.bind (h : Rejects x c e) (g : α → Ctl β) : Rejects (x >>= g) c e := by
  change (x.run c).bind _ = _
  rw [h]
  rfl

theorem confirmPhysical_rejects (context : SessionContext) (cmd : Command)
    (stays : reachesClock P c (.confirmPhysical context cmd) = false) :
    ∃ e, Rejects (confirmPhysical P context cmd) c e := by
  simp only [reachesClock] at stays
  cases grant : checkGrant P c.state context cmd with
  | error e =>
    have authorized : Rejects (authorize P context cmd) c e := by
      change (orFail (checkGrant P c.state context cmd) >>= _ : Ctl Grant).run c = _
      rw [grant]
      rfl
    exact ⟨e, authorized.bind _⟩
  | ok g =>
    simp only [grant, Bool.or_eq_false_iff] at stays
    obtain ⟨always, rejected⟩ := stays
    have authorized := authorize_run grant always
    cases bound : checkBinding P c.state g cmd with
    | error e =>
      rw [bound] at authorized
      exact ⟨e, Rejects.bind authorized _⟩
    | ok =>
      refine ⟨.invalidPayload, ?_⟩
      change ((authorize P context cmd).run c).bind _ = _
      rw [authorized, bound]
      rw [bound] at rejected
      cases action : cmd.action with
      | factoryReset => simp [action] at rejected
      | replaceIssuer key => simp [action] at rejected
      | _ => rfl

/-- A method that does not reach the clock is rejected without any effect. -/
theorem method_rejects (m : Method) (stays : reachesClock P c m = false) :
    ∃ e, m.program P c = .pure (.result (.error e), c) := by
  cases m with
  | confirmPhysical context cmd =>
    obtain ⟨e, rejects⟩ := confirmPhysical_rejects context cmd stays
    refine ⟨e, ?_⟩
    change ((confirmPhysical P context cmd).run c).bind _ = _
    rw [rejects]
    rfl
  | _ => cases stays

end OpenLock
