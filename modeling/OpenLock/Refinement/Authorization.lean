import OpenLock.Refinement.Hardware

/-! Authorization and the checks before acceptance refine the abstract lock: they service
the hardware and otherwise only decide. -/
namespace OpenLock
open Controller Effects

variable {P : Primitives} {f : FactoryIdentity} {c c' : Controller} {s s' : Lock P f}
  {m n : DeviceSnapshot} {context : SessionContext} {cmd : Command} {g : Grant}
  {clocks clocks' : List ClockSample}

section Congruence
/-! The checks read authorization state only. -/

theorem checkGrant_congr (auth : n.auth = m.auth) (context : SessionContext) (cmd : Command) :
    checkGrant P n context cmd = checkGrant P m context cmd := by
  have generation : n.generation = m.generation := congrArg AuthState.generation auth
  have owner : n.owner = m.owner := congrArg AuthState.owner auth
  have lockId : n.lockId = m.lockId := congrArg AuthState.lockId auth
  have epoch : n.epoch = m.epoch := congrArg AuthState.epoch auth
  have revoked : n.revoked = m.revoked := congrArg AuthState.revoked auth
  simp only [checkGrant, generation, owner, lockId, epoch, revoked]

theorem checkBinding_congr (auth : n.auth = m.auth) (g : Grant) (cmd : Command) :
    checkBinding P n g cmd = checkBinding P m g cmd := by
  have bindings : n.bindings = m.bindings := congrArg AuthState.bindings auth
  simp only [checkBinding, bindings]

theorem watermark_congr (auth : n.auth = m.auth) (id : CredentialId) :
    n.watermark id = m.watermark id := by
  have watermarks : n.watermarks = m.watermarks := congrArg AuthState.watermarks auth
  simp only [DeviceSnapshot.watermark, watermarks]

end Congruence

/-- Some clock reading of the call lies inside the grant's window, if it has one. -/
def InWindow (validity : Option Validity) (clocks : List ClockSample) : Prop :=
  ∀ v, validity = some v → ∃ r ∈ clocks, v.notBefore ≤ r.lower ∧ r.upper < v.notAfter

theorem checkValidity_inWindow {validity : Option Validity} {clock : Option ClockSample}
    {clocks : List ClockSample} (ok : checkValidity validity clock = .ok ())
    (heard : ∀ x, clock = some x → x ∈ clocks) : InWindow validity clocks := by
  rintro v rfl
  simp only [checkValidity, bind_eq_ok, okOr_eq_ok, failIf_eq_ok, not_or] at ok
  obtain ⟨r, hr, lower, upper⟩ := ok
  exact ⟨r, heard r hr, UInt64.not_lt.1 lower, UInt64.not_le.1 upper⟩

/-- A grant that passed `authorize` over this snapshot. -/
structure Vetted (P : Primitives) (m : DeviceSnapshot) (clocks : List ClockSample)
    (context : SessionContext) (cmd : Command) (g : Grant) : Prop where
  grant : checkGrant P m context cmd = .ok g
  binding : checkBinding P m g cmd = .ok ()
  window : InWindow g.validity clocks

theorem Vetted.congr (h : Vetted P m clocks context cmd g) (auth : n.auth = m.auth)
    (more : clocks ⊆ clocks') : Vetted P n clocks' context cmd g := by
  refine ⟨by rw [checkGrant_congr auth]; exact h.grant,
    by rw [checkBinding_congr auth]; exact h.binding, fun v hv => ?_⟩
  obtain ⟨r, hr, within⟩ := h.window v hv
  exact ⟨r, more hr, within⟩

/-- What an answered request has been checked for: its session, and on an owned device a
grant of the current issuer. -/
structure LetIn (P : Primitives) (m : DeviceSnapshot) (clocks : List ClockSample)
    (context : SessionContext) (cmd : Command) : Prop where
  current : context.generation = m.generation
  vetted : m.owner.isSome → ∃ g, Vetted P m clocks context cmd g

theorem Vetted.letIn (h : Vetted P n clocks context cmd g) (auth : n.auth = m.auth)
    (more : clocks ⊆ clocks') : LetIn P m clocks' context cmd := by
  have vetted := h.congr auth.symm more
  obtain ⟨_, granted⟩ := checkGrant_ok.1 vetted.grant
  exact ⟨granted.generation, fun _ => ⟨g, vetted⟩⟩

theorem checkWindow_spec (h : Ready f c s.1) (g : Grant) :
    SimE (lockSpec P f) (checkWindow P g) c s fun r c' s' =>
      Serviced f 2 c s.1 r c' s'.1 ∧ (r = .ok () → InWindow g.validity s'.1.clocks) := by
  unfold checkWindow
  split
  · refine (observeHardware_spec h.toCoupled h.recorded true).bind ?_ ?_
    · rintro clock c' s' ⟨⟨⟨ready, kept⟩, _⟩, clocked⟩
      rw [simE_orFail]
      refine ⟨⟨Ready.verdict ready _, kept⟩, fun ok => ?_⟩
      exact checkValidity_inWindow ok fun x hx => clocked x (by rw [hx])
    · rintro e c' s' ⟨⟨⟨verdict, kept⟩, _⟩, _⟩
      exact ⟨⟨verdict, kept⟩, fun h => by cases h⟩
  · rename_i always
    refine ⟨⟨h, (Kept.refl c s.1).mono (Nat.zero_le 2)⟩, fun _ v hv => ?_⟩
    rw [hv] at always
    exact absurd rfl always

theorem authorize_spec (h : Ready f c s.1) (context : SessionContext) (cmd : Command) :
    SimE (lockSpec P f) (authorize P context cmd) c s fun r c' s' =>
      Serviced f 2 c s.1 r c' s'.1
        ∧ ∀ g, r = .ok g → Vetted P c'.state s'.1.clocks context cmd g := by
  unfold authorize
  simp only [simE_bind, simE_get, andThen_ok, simE_orFail]
  cases hg : checkGrant P c.state context cmd with
  | error e => exact ⟨⟨h.verdict _, (Kept.refl c s.1).mono (Nat.zero_le 2)⟩, fun _ h => by cases h⟩
  | ok g =>
    rw [andThen_ok]
    refine (checkWindow_spec h g).bind ?_ ?_
    · rintro _ c' s' ⟨⟨ready, kept⟩, window⟩
      simp only [simE_bind, simE_get, andThen_ok, simE_orFail]
      cases hb : checkBinding P c'.state g cmd with
      | error e => exact ⟨⟨Ready.verdict ready _, kept⟩, fun _ h => by cases h⟩
      | ok =>
        refine ⟨⟨ready, kept⟩, ?_⟩
        rintro _ ⟨⟩
        exact ⟨by rw [checkGrant_congr kept.auth]; exact hg, hb, window rfl⟩
    · rintro e c' s' ⟨⟨verdict, kept⟩, _⟩
      exact ⟨⟨verdict, kept⟩, fun _ h => by cases h⟩

/-- What the pairing gesture leaves: a window of two minutes from its reading of the clock, and
no failures. -/
structure WindowOpened (c : Controller) (times : List UInt64) : Prop where
  ownerless : c.state.owner = none
  read : c.lastMono ∈ times
  range : c.lastMono.toNat + 120000 < 2^64
  window : c.pairingUntil = some (c.lastMono + 120000)
  failures : c.pairingFailures = 0

theorem openPairingWindow_spec (h : Coupled f c s.1) (recorded : s.1.failing = none) :
    SimE (lockSpec P f) openPairingWindow c s fun r c' s' =>
      Verdict f r c' s'.1 ∧ (match r with
        | .ok _ => WindowOpened c' s'.1.times
        | .error _ => c'.gates = c.gates ∧ c'.state = c.state) := by
  unfold openPairingWindow
  refine (now_spec h fun _ => recorded).bind ?_
    fun e c' s' died => ⟨died.2.verdict e, died.2.gates, died.2.state⟩
  rintro now c' s' ⟨ready, rfl, read, _⟩
  simp only [simE_bind, simE_get, andThen_ok]
  rw [simE_failIf]
  refine ⟨fun _ => ⟨ready.calm, rfl, rfl⟩, fun ownerless => ?_⟩
  simp only [andThen_ok, simE_bind, simE_orFail]
  cases add : checkedAdd now 120000 with
  | none => exact ⟨ready.calm, rfl, rfl⟩
  | some _ =>
    obtain ⟨rfl, sum⟩ := checkedAdd_eq_some add
    have range := (now + 120000).toNat_lt
    rw [sum] at range
    exact ⟨ready.volatile ⟨rfl, rfl, rfl, rfl, rfl⟩, Option.not_isSome_iff_eq_none.1 ownerless, read,
      range, rfl, rfl⟩

/-- How a confirmation is recorded: for a minute from the last monotonic reading, for this
peer and the digest of the command. -/
structure Pressed (P : Primitives) (context : SessionContext) (cmd : Command) (c : Controller)
    (times : List UInt64) : Prop where
  read : c.lastMono ∈ times
  range : c.lastMono.toNat + 60000 < 2^64
  held : ∃ encoded, encodeWire P cmd = .ok encoded
    ∧ c.confirmation = some ⟨context.peer, P.sha256 encoded, c.lastMono + 60000⟩

theorem recordConfirmation_spec (h : Ready f c s.1) (context : SessionContext) (cmd : Command) :
    SimE (lockSpec P f) (recordConfirmation P context cmd) c s fun r c' s' =>
      Verdict f r c' s'.1 ∧ (match r with
        | .ok _ => Pressed P context cmd c' s'.1.times
        | .error _ => c'.confirmation = c.confirmation) := by
  unfold recordConfirmation
  refine (now_spec h.toCoupled fun _ => h.recorded).bind ?_ ?_
  · rintro now c' s' ⟨ready, rfl, read, _⟩
    simp only [simE_bind, simE_orFail]
    cases encodes : encodeWire P cmd with
    | error e => exact ⟨ready.calm, rfl⟩
    | ok encoded =>
      simp only [andThen_ok, simE_bind, simE_orFail]
      cases add : checkedAdd now 60000 with
      | none => exact ⟨ready.calm, rfl⟩
      | some expires =>
        obtain ⟨rfl, sum⟩ := checkedAdd_eq_some add
        have range := (now + 60000).toNat_lt
        rw [sum] at range
        exact ⟨ready.volatile ⟨rfl, rfl, rfl, rfl, rfl⟩, read, range, encoded, encodes, rfl⟩
  · rintro e c' s' ⟨_, died⟩
    exact ⟨died.verdict e, congrArg (·.2.2) died.gates⟩

/-- A confirmation is only given under a grant that may make the request. -/
theorem confirmPhysical_spec (h : Ready f c s.1) (context : SessionContext) (cmd : Command) :
    SimE (lockSpec P f) (confirmPhysical P context cmd) c s fun r c' s' =>
      Verdict f r c' s'.1 ∧ (match r with
        | .ok _ => LetIn P c.state s'.1.clocks context cmd ∧ Pressed P context cmd c' s'.1.times
        | .error _ => c'.confirmation = c.confirmation) := by
  unfold confirmPhysical
  refine (authorize_spec h context cmd).bind ?_ ?_
  · rintro g c₁ s₁ ⟨⟨ready, kept⟩, vetted⟩
    have gates : c₁.confirmation = c.confirmation := congrArg (·.2.2) kept.gates
    have recorded : SimE (lockSpec P f) (recordConfirmation P context cmd) c₁ s₁ fun r c' s' =>
        Verdict f r c' s'.1 ∧ (match r with
          | .ok _ => LetIn P c.state s'.1.clocks context cmd ∧ Pressed P context cmd c' s'.1.times
          | .error _ => c'.confirmation = c.confirmation) := by
      refine (framed (recordConfirmation_spec ready context cmd)).mono ?_
      rintro r c' s' ⟨⟨verdict, pressed⟩, frame⟩
      refine ⟨verdict, ?_⟩
      cases r with
      | ok => exact ⟨(vetted g rfl).letIn kept.auth frame.clocks, pressed⟩
      | error => exact pressed.trans gates
    split
    · exact recorded
    · exact recorded
    · exact ⟨Ready.verdict ready _, gates⟩
  · rintro e c₁ s₁ ⟨⟨verdict, kept⟩, _⟩
    exact ⟨verdict, congrArg (·.2.2) kept.gates⟩

end OpenLock
