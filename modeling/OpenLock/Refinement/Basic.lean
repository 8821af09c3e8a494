import OpenLock.Abstract.Preservation
import OpenLock.Effects.Assuming
import OpenLock.Refinement.Rules

/-! How a controller and the abstract lock correspond between two effects, and the
rules that step through a method with them. -/
namespace OpenLock
open Controller Effects

variable {P : Primitives} {f : FactoryIdentity} {c c' c'' : Controller} {s s' s'' : Lock P f}
  {α β : Type} {a a' a'' : Abs} {e : Error} {k : Nat}

theorem simE_request_assuming {K : Event Answer → Prop} {e : Effect}
    {Q : Except Error (Answer e) → Controller → Lock P f → Prop}
    (h : ∀ x, storage.permits s.1.disk ⟨e, x⟩ → K ⟨e, x⟩ →
      ∃ t, s.1.Step P f ⟨e, x⟩ t ∧ ∀ inv : t.Inv P f, Q (.ok x) c ⟨t, inv⟩) :
    SimE ((lockSpec P f).assuming K) (request e) c s Q := by
  intro x hx
  obtain ⟨t, step, hQ⟩ := h x hx.1 hx.2
  exact ⟨⟨t, s.2.step step⟩, step, hQ _⟩

theorem simE_request {e : Effect} {Q : Except Error (Answer e) → Controller → Lock P f → Prop}
    (h : ∀ x, storage.permits s.1.disk ⟨e, x⟩ →
      ∃ t, s.1.Step P f ⟨e, x⟩ t ∧ ∀ inv : t.Inv P f, Q (.ok x) c ⟨t, inv⟩) :
    SimE (lockSpec P f) (request e) c s Q :=
  (simE_request_assuming fun x permitted _ => h x permitted).unconditional

/-- What no effect of a call changes or forgets. -/
structure Frame (s s' : Abs) : Prop where
  call : s'.call = s.call
  entry : s'.entry = s.entry
  times : s.times ⊆ s'.times
  clocks : s.clocks ⊆ s'.clocks
  released : s.released ⊆ s'.released

namespace Frame
variable {a a' a'' : Abs}

theorem refl (a : Abs) : Frame a a := ⟨rfl, rfl, fun _ h => h, fun _ h => h, fun _ h => h⟩

theorem trans (h : Frame a a') (h' : Frame a' a'') : Frame a a'' :=
  ⟨h'.call.trans h.call, h'.entry.trans h.entry, fun _ m => h'.times (h.times m),
    fun _ m => h'.clocks (h.clocks m), fun _ m => h'.released (h.released m)⟩

theorem request (h : Frame a a') : a'.request = a.request := by
  rw [Abs.request, Abs.request, h.call, h.entry]

theorem step {ev : Event Answer} (hs : a.Step P f ev a') : Frame a a' := by
  cases hs.shape with
  | tick => exact ⟨rfl, rfl, List.subset_cons_self _ _, fun _ h => h, fun _ h => h⟩
  | hear => exact ⟨rfl, rfl, fun _ h => h, List.subset_append_right _ _, fun _ h => h⟩
  | stop r =>
    cases r with
    | ok => exact ⟨rfl, rfl, fun _ h => h, fun _ h => h, List.subset_append_right _ _⟩
    | error => exact ⟨rfl, rfl, fun _ h => h, fun _ h => h, fun _ h => h⟩
  | load r => cases r <;> exact ⟨rfl, rfl, fun _ h => h, fun _ h => h, fun _ h => h⟩
  | submit => exact ⟨rfl, rfl, fun _ h => h, fun _ h => h, List.subset_append_right _ _⟩
  | commit _ r => cases r <;> exact ⟨rfl, rfl, fun _ h => h, fun _ h => h, fun _ h => h⟩
  | install _ r => cases r <;> exact ⟨rfl, rfl, fun _ h => h, fun _ h => h, fun _ h => h⟩
  | _ => exact ⟨rfl, rfl, fun _ h => h, fun _ h => h, fun _ h => h⟩

theorem path {tr : List (Event Answer)} (h : Path (lockSpec P f) s tr s') : Frame s.1 s'.1 := by
  induction h with
  | nil s => exact .refl _
  | cons head _ ih => exact (step head).trans ih

end Frame

/-- A method may always be assumed to keep the frame of its call. -/
theorem framed {x : Ctl α} {Q : Except Error α → Controller → Lock P f → Prop}
    (h : SimE (lockSpec P f) x c s Q) :
    SimE (lockSpec P f) x c s fun r c' s' => Q r c' s' ∧ Frame s.1 s'.1 := by
  refine h.with_path.mono ?_
  rintro r c' s' ⟨hQ, tr, path⟩
  exact ⟨hQ, .path path⟩

/-- The factory identity is fixed except for the firmware version it reports. -/
def SameFactory (f g : FactoryIdentity) : Prop :=
  g = { f with info := { f.info with firmware := g.info.firmware } }

theorem SameFactory.refl (f : FactoryIdentity) : SameFactory f f := rfl

theorem SameFactory.report {g : FactoryIdentity} (h : SameFactory f g) (version : String) :
    SameFactory f { g with info := { g.info with firmware := version } } := by
  unfold SameFactory at h ⊢
  rw [h]

/-- The identity `g` a controller reports: the factory's, with the version of a confirmed
image. -/
structure Identified (f g : FactoryIdentity) (w : FirmwareStatus) : Prop where
  same : SameFactory f g
  version : w.phase = .confirmed → ∃ m, w.manifest = some m ∧ g.info.firmware = m.version

/-- A controller and the abstract lock agree on everything but who owns the actuator. -/
structure Linked (f : FactoryIdentity) (c : Controller) (s : Abs) : Prop where
  factory : Identified f c.factory c.state.firmware
  mem : s.mem = some c.state
  poisoned : s.poisoned = c.poisoned
  mono : s.lastMono = c.lastMono
  safe : c.poisoned = false → s.hazard = none

/-- They agree on the running drive too. -/
structure Coupled (f : FactoryIdentity) (c : Controller) (s : Abs) : Prop extends
    Linked f c s where
  owned : s.owned = c.active

/-- No further event can be numbered. -/
def Exhausted (s : DeviceSnapshot) : Prop := 2^64 ≤ s.nextCursor.toNat + 1

/-- The controller may still persist housekeeping: it is live, and a stopped drive that
is not recorded has met a spent log. -/
structure Tame (f : FactoryIdentity) (c : Controller) (s : Abs) : Prop extends
    Coupled f c s where
  live : c.poisoned = false
  recorded : s.failing = none ∨ Spent c.state

/-- The controller may go on: it is live and every stopped drive is recorded. -/
structure Ready (f : FactoryIdentity) (c : Controller) (s : Abs) : Prop extends
    Coupled f c s where
  live : c.poisoned = false
  recorded : s.failing = none

theorem Ready.tame (h : Ready f c a) : Tame f c a :=
  ⟨h.toCoupled, h.live, .inl h.recorded⟩

theorem Ready.quiet (h : Ready f c a) : a.Quiet :=
  ⟨h.poisoned.trans h.live, h.safe h.live, h.recorded⟩

/-- The volatile commissioning state: pairing window and confirmation. -/
def Controller.gates (c : Controller) : Option UInt64 × UInt8 × Option Confirmation :=
  (c.pairingUntil, c.pairingFailures, c.confirmation)

/-- What servicing the hardware, the clock and the log leaves alone, with at most `k`
new events. -/
structure Kept (k : Nat) (c : Controller) (s : Abs) (c' : Controller) (s' : Abs) : Prop where
  auth : c'.state.auth = c.state.auth
  gates : c'.gates = c.gates
  cursor : c'.state.nextCursor.toNat ≤ c.state.nextCursor.toNat + k
  active : c'.active = c.active ∨ c'.active = none
  progress : s'.progress = s.progress

namespace Kept
variable {k l : Nat} {a a' a'' : Abs}

theorem refl (c : Controller) (a : Abs) : Kept 0 c a c a := ⟨rfl, rfl, Nat.le_refl _, .inl rfl, rfl⟩

theorem mono (h : Kept k c a c' a') (hk : k ≤ l) : Kept l c a c' a' :=
  ⟨h.auth, h.gates, Nat.le_trans h.cursor (Nat.add_le_add_left hk _), h.active, h.progress⟩

theorem trans (h : Kept k c a c' a') (h' : Kept l c' a' c'' a'') : Kept (k + l) c a c'' a'' := by
  refine ⟨h'.auth.trans h.auth, h'.gates.trans h.gates, ?_, ?_, h'.progress.trans h.progress⟩
  · have h1 := h.cursor
    have h2 := h'.cursor
    omega
  · rcases h'.active with h2 | h2
    · rw [h2]
      exact h.active
    · exact .inr h2

end Kept

/-- How a background method ends: ready, or with an error that poisoned it, or with a
drive stopped that the spent log could not record. -/
def Verdict (f : FactoryIdentity) : Except Error α → Controller → Abs → Prop
  | .ok _, c, s => Ready f c s
  | .error e, c, s => Coupled f c s ∧ (c.poisoned = false →
      s.failing = none ∨ (e = .resourceExhausted ∧ Spent c.state))

/-- An error that leaves the controller ready. -/
theorem Ready.calm (h : Ready f c a) : Coupled f c a ∧ (c.poisoned = false →
      a.failing = none ∨ (e = .resourceExhausted ∧ Spent c.state)) :=
  ⟨h.toCoupled, fun _ => .inl h.recorded⟩

theorem Ready.verdict (h : Ready f c a) (r : Except Error α) : Verdict f r c a := by
  cases r with
  | ok x => exact h
  | error e => exact h.calm

/-- After an error the log may still be written. -/
theorem Verdict.tame (h : Verdict f (.error e : Except Error α) c a) (live : c.poisoned = false) :
    Tame f c a :=
  ⟨h.1, live, (h.2 live).imp_right And.right⟩

/-- The common specification of background methods. -/
def Serviced (f : FactoryIdentity) (k : Nat) (c : Controller) (s : Abs) (r : Except Error α)
    (c' : Controller) (s' : Abs) : Prop :=
  Verdict f r c' s' ∧ Kept k c s c' s'

/-- Why servicing the hardware can fail: a bad reading, a log without room for `k` more events,
or what has poisoned the controller. -/
inductive Unfit (k : Nat) (c c' : Controller) : Error → Prop
  | sensors : Unfit k c c' .sensorConflict
  | exhausted (full : 2^64 ≤ c.state.nextCursor.toNat + k) : Unfit k c c' .resourceExhausted
  | poisoned (e : Error) (dead : c'.poisoned = true)
      (cause : e = .storageUnavailable ∨ e = .clockUntrusted ∨ e = .actuatorFailed) :
      Unfit k c c' e

theorem Unfit.mono {k l : Nat} (h : Unfit k c c' e) (hk : k ≤ l) : Unfit l c c' e := by
  cases h with
  | sensors => exact .sensors
  | exhausted full => exact .exhausted (by omega)
  | poisoned _ dead cause => exact .poisoned e dead cause

/-- A later part of a service fails for the same reasons. -/
theorem Unfit.since {j k : Nat} (h : Unfit k c' c'' e)
    (cursor : c'.state.nextCursor.toNat ≤ c.state.nextCursor.toNat + j) :
    Unfit (j + k) c c'' e := by
  cases h with
  | sensors => exact .sensors
  | exhausted full => exact .exhausted (by omega)
  | poisoned _ dead cause => exact .poisoned e dead cause

/-- The specification of servicing the hardware, with the reason of a failure. -/
def Observed (f : FactoryIdentity) (k : Nat) (c : Controller) (s : Abs) (r : Except Error α)
    (c' : Controller) (s' : Abs) : Prop :=
  Serviced f k c s r c' s' ∧ ∀ e, r = .error e → Unfit k c c' e

theorem Observed.ok {x : α} (h : Serviced f k c a (.ok x) c' a') :
    Observed f k c a (.ok x) c' a' := ⟨h, fun _ h => by cases h⟩

theorem Observed.error (h : Serviced f k c a (.error e : Except Error α) c' a')
    (why : Unfit k c c' e) :
    Observed f k c a (.error e : Except Error α) c' a' := by
  refine ⟨h, ?_⟩
  rintro _ ⟨⟩
  exact why

/-- The abstract lock after some clock readings and answers of the platform. -/
def Noted (s s' : Abs) : Prop :=
  ∃ l k p, s' = { s with clocks := l ++ s.clocks, notes := k ++ s.notes, pending := p }

theorem Noted.refl (s : Abs) : Noted s s := ⟨[], [], s.pending, rfl⟩

theorem Noted.note (s : Abs) (ev : Event Answer) : Noted s (s.note ev) := ⟨[], [ev], none, rfl⟩

theorem Noted.trans (h : Noted a a') (h' : Noted a' a'') : Noted a a'' := by
  obtain ⟨l, k, p, rfl⟩ := h
  obtain ⟨l', k', p', rfl⟩ := h'
  exact ⟨l' ++ l, k' ++ k, p', by simp⟩

theorem Noted.progress (h : Noted a a') : a'.progress = a.progress := by
  obtain ⟨l, k, p, rfl⟩ := h
  rfl

theorem Noted.call (h : Noted a a') : a'.call = a.call := by
  obtain ⟨l, k, p, rfl⟩ := h
  rfl

theorem Linked.noted (h : Linked f c a) (hh : Noted a a') : Linked f c a' := by
  obtain ⟨l, k, p, rfl⟩ := hh
  exact ⟨h.factory, h.mem, h.poisoned, h.mono, h.safe⟩

theorem Coupled.noted (h : Coupled f c a) (hh : Noted a a') : Coupled f c a' := by
  refine ⟨h.toLinked.noted hh, ?_⟩
  obtain ⟨l, k, p, rfl⟩ := hh
  exact h.owned

theorem Ready.noted (h : Ready f c a) (hh : Noted a a') : Ready f c a' := by
  refine ⟨h.toCoupled.noted hh, h.live, ?_⟩
  obtain ⟨l, k, p, rfl⟩ := hh
  exact h.recorded

/-- The abstract lock after clock readings alone. -/
def Heard (s s' : Abs) : Prop :=
  ∃ l p, s' = { s with clocks := l ++ s.clocks, pending := p }

theorem Heard.noted (h : Heard a a') : Noted a a' := by
  obtain ⟨l, p, rfl⟩ := h
  exact ⟨l, [], p, rfl⟩

theorem Heard.refl (s : Abs) : Heard s s := ⟨[], s.pending, rfl⟩

theorem Heard.hear (s : Abs) (r : Option ClockSample) : Heard s (s.hear r) := ⟨_, none, rfl⟩

theorem Heard.trans (h : Heard a a') (h' : Heard a' a'') : Heard a a'' := by
  obtain ⟨l, p, rfl⟩ := h
  obtain ⟨l', p', rfl⟩ := h'
  exact ⟨l' ++ l, p', by simp⟩

theorem Heard.progress (h : Heard a a') : a'.progress = a.progress := h.noted.progress

theorem Heard.touches (h : Heard a a') : a'.touches = a.touches := by
  obtain ⟨l, p, rfl⟩ := h
  rfl

theorem Heard.notes (h : Heard a a') : a'.notes = a.notes := by
  obtain ⟨l, p, rfl⟩ := h
  rfl

theorem Coupled.heard (h : Coupled f c a) (hh : Heard a a') : Coupled f c a' :=
  h.noted hh.noted

theorem Ready.heard (h : Ready f c a) (hh : Heard a a') : Ready f c a' :=
  h.noted hh.noted

theorem Tame.heard (h : Tame f c a) (hh : Heard a a') : Tame f c a' := by
  refine ⟨h.toCoupled.heard hh, h.live, ?_⟩
  obtain ⟨l, p, rfl⟩ := hh
  exact h.recorded

/-- A request that only asks the platform. -/
theorem ask_spec {e : Effect} (step : ∀ x, s.1.Step P f ⟨e, x⟩ (s.1.note ⟨e, x⟩)) :
    SimE (lockSpec P f) (request e) c s fun r c' s' =>
      ((∃ x, r = .ok x) ∧ ∀ x, r = .ok x → s'.1.notes.head? = some ⟨e, x⟩) ∧ c' = c
        ∧ Noted s.1 s'.1 := by
  apply simE_request
  intro x _
  refine ⟨s.1.note ⟨e, x⟩, step x, fun _ => ⟨⟨⟨x, rfl⟩, fun y hy => ?_⟩, rfl, .note _ _⟩⟩
  obtain rfl : x = y := Except.ok.inj hy
  rfl

end OpenLock
