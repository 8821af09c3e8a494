import OpenLock.Device.Poisoned
import OpenLock.Refinement.Constructors

/-! Every life of a device is a life of the abstract lock: the same effects in the same
order, with the abstract lock entering each call in a state that tracks the device. -/
namespace OpenLock
open Controller Effects

variable {P : Primitives} {f : FactoryIdentity} {c : Controller} {s : Lock P f}

namespace Lock

/-- The abstract lock before the first call. -/
def blank : Lock P f where
  abs :=
    { call := .construct .open
      entry := none
      disk := none
      mem := none
      poisoned := false
      owned := none
      lastMono := 0
      times := []
      clocks := []
      notes := []
      reading := none
      hazard := none
      failing := none
      released := []
      pending := none
      progress := .fresh }
  inv := by
    refine ⟨?_, ?_, ?_, ?_, ?_, trivial, ?_, ?_⟩
    · intro d hd
      cases hd
    · intro m hm
      cases hm
    · intro _ m hm
      cases hm
    · intro a m ha
      cases ha
    · intro a ha
      cases ha
    · intro k m hk
      cases hk
    · intro hz
      cases hz

/-- The abstract lock at the beginning of a call. -/
def enter (s : Lock P f) (call : Call) (entry : Option Controller) : Lock P f :=
  ⟨s.1.enter call entry, s.2.enter call entry⟩

end Lock

/-- The abstract lock between calls knows the store and the controller, if there is one. -/
structure Tracks (d : Device) (s : Lock P f) : Prop where
  disk : s.1.disk = d.disk
  controller : ∀ c, d.controller = some c → Coupled f c s.1

theorem Tracks.blank : Tracks .blank (Lock.blank : Lock P f) := ⟨rfl, fun _ h => by cases h⟩

/-- A controller that is not poisoned holds what is in its store. -/
theorem Tracks.synced {d : Device} (tracks : Tracks d s) (found : d.controller = some c)
    (live : c.poisoned = false) : d.disk = some c.state := by
  have coupled := tracks.controller c found
  rw [← tracks.disk]
  exact s.2.synced (coupled.poisoned.trans live) _ coupled.mem

theorem Coupled.enter (h : Coupled f c s.1) (m : Method) (entry : Option Controller) :
    Coupled f c (s.enter (.method m) entry).1 :=
  ⟨⟨h.factory, h.mem, h.poisoned, h.mono, h.safe⟩, h.owned⟩

theorem Lock.entering (s : Lock P f) (k : Constructor) (entry : Option Controller) :
    Entering (s.enter (.construct k) entry).1 :=
  ⟨rfl, ⟨rfl, rfl, rfl⟩, rfl, rfl, rfl⟩

/-- How a method returns. -/
structure Returned (P : Primitives) (f : FactoryIdentity) (m : Method) (c : Controller)
    (out : Output) (c' : Controller) (s' : Abs) : Prop where
  coupled : Coupled f c' s'
  ready : out.failed = false → Ready f c' s'
  answered : ∀ context cmd, Call.request (.method m) (some c) = some (context, cmd) →
    ∃ r, out = .response r ∧ Responded P f context cmd c r c' s'
  confirmed : ∀ context cmd, m = .confirmPhysical context cmd → out.failed = false →
    LetIn P c.state s'.clocks context cmd ∧ Pressed P context cmd c' s'.times
  held : ∀ context cmd, m = .confirmPhysical context cmd → c.poisoned = false →
    out.failed = true → c'.confirmation = c.confirmation
  recorded : c'.poisoned = false → s'.failing = none ∨ Spent c'.state

section Methods
variable {m : Method}

/-- What a physical confirmation leaves. -/
def Confirming (P : Primitives) (m : Method) (c : Controller) (r : Except Error Unit)
    (c' : Controller) (s' : Abs) : Prop :=
  ∀ context cmd, m = .confirmPhysical context cmd → match r with
    | .ok _ => LetIn P c.state s'.clocks context cmd ∧ Pressed P context cmd c' s'.times
    | .error _ => c.poisoned = false → c'.confirmation = c.confirmation

/-- A method that answers no request. -/
private theorem returning_spec {x : Ctl Unit}
    (spec : SimE (lockSpec P f) x c s fun r c' s' => Verdict f r c' s'.1
      ∧ Confirming P m c r c' s'.1)
    (silent : Call.request (.method m) (some c) = none) :
    SimS (lockSpec P f) (Method.returning x) c s fun out c' s' => Returned P f m c out c' s'.1 := by
  change Sim (lockSpec P f) ((x.run c).bind _) s _
  rw [sim_bind]
  refine Sim.mono spec ?_
  rintro ⟨r, c'⟩ s' ⟨verdict, confirming⟩
  have unasked : ∀ context cmd, Call.request (.method m) (some c) = some (context, cmd) →
      ∃ y, Output.result r = .response y ∧ Responded P f context cmd c y c' s'.1 := by
    intro context cmd asked
    rw [silent] at asked
    cases asked
  cases r with
  | ok => exact ⟨Ready.toCoupled verdict, fun _ => verdict, unasked,
      fun context cmd hm _ => confirming context cmd hm, fun _ _ _ _ h => (by cases h),
      fun _ => .inl verdict.recorded⟩
  | error e => exact ⟨verdict.1, fun h => (by cases h), unasked, fun _ _ _ h => (by cases h),
      fun context cmd hm live _ => confirming context cmd hm live,
      fun live => (verdict.2 live).imp_right And.right⟩

private theorem responding_spec {context : SessionContext} {cmd : Command}
    (h : Coupled f c s.1) (recorded : s.1.failing = none) (fresh : s.1.progress = .fresh)
    (request : s.1.request = some (context, cmd)) (entered : s.1.entry = some c)
    (asks : Call.request (.method m) (some c) = some (context, cmd)) :
    Sim (lockSpec P f) ((handle P context cmd c).bind fun r => .pure (Output.response r.1, r.2)) s
      fun r s' => Returned P f m c r.1 r.2 s'.1 := by
  rw [sim_bind]
  refine Sim.mono (handle_spec h recorded fresh request entered) ?_
  rintro ⟨⟨opcode, r⟩, c'⟩ s' responded
  refine ⟨responded.coupled, ?_, ?_, ?_, ?_, responded.recorded⟩
  · intro answered
    cases r with
    | ok y => exact responded.ready y rfl
    | error e => cases answered
  · intro context' cmd' same
    rw [asks] at same
    cases same
    exact ⟨_, rfl, responded⟩
  · rintro _ _ rfl
    cases asks
  · rintro _ _ rfl
    cases asks

/-- A poisoned controller only ever retries the stop. -/
private theorem retryStop_spec (h : Coupled f c s.1) (poisoned : c.poisoned = true)
    (out : Output) : Sim (lockSpec P f) (retryStop c out) s fun r s' =>
      r.1 = out ∧ Coupled f r.2 s'.1 ∧ r.2.poisoned = true := by
  unfold retryStop
  cases active : c.active with
  | none => exact ⟨rfl, h, poisoned⟩
  | some a =>
    intro x _
    have owned : s.1.owned = some a := h.owned.trans active
    have dead : s.1.poisoned = true := h.poisoned.trans poisoned
    have step : s.1.Step P f ⟨.stopAction, x⟩ (s.1.stop x) :=
      ⟨.inr ⟨by rw [owned]; rfl, .inl dead⟩, rfl⟩
    refine ⟨⟨s.1.stop x, s.2.step step⟩, step, ?_⟩
    cases x with
    | ok => exact ⟨rfl, ⟨⟨h.factory, h.mem, h.poisoned, h.mono, fun _ => rfl⟩, rfl⟩, poisoned⟩
    | error => exact ⟨rfl, ⟨⟨h.factory, h.mem, poisoned.symm, h.mono, h.safe⟩, h.owned⟩, poisoned⟩

/-- Every method, on any controller, follows the abstract lock. -/
theorem method_spec (h : Coupled f c s.1) (recorded : s.1.failing = none)
    (fresh : s.1.progress = .fresh) (call : s.1.call = .method m) (entered : s.1.entry = some c) :
    SimS (lockSpec P f) (m.program P) c s fun out c' s' => Returned P f m c out c' s'.1 := by
  have request : s.1.request = Call.request (.method m) (some c) := by
    rw [Abs.request, call, entered]
  cases m with
  | handle context cmd => exact responding_spec h recorded fresh request entered rfl
  | handleLocal peer cmd => exact responding_spec h recorded fresh request entered rfl
  | confirmPhysical context cmd =>
    cases poisoned : c.poisoned with
    | false =>
      refine returning_spec ((confirmPhysical_spec ⟨h, poisoned, recorded⟩ context cmd).mono ?_) rfl
      rintro r c' s' ⟨verdict, pressed⟩
      refine ⟨verdict, ?_⟩
      rintro _ _ ⟨⟩
      cases r with
      | ok => exact pressed
      | error => exact fun _ => pressed
    | true =>
      have returned : ∀ e c' (s' : Lock P f), Coupled f c' s'.1 → c'.poisoned = true →
          Returned P f (.confirmPhysical context cmd) c (.result (.error e)) c' s'.1 :=
        fun e c' s' coupled dead => ⟨coupled, fun h => (by cases h), fun _ _ h => (by cases h),
          fun _ _ _ h => (by cases h), fun _ _ _ live => (by rw [poisoned] at live; cases live),
          fun live => by rw [dead] at live; cases live⟩
      cases reaches : reachesClock P c (.confirmPhysical context cmd) with
      | true =>
        change Sim _ (Method.program P _ c) _ _
        rw [method_retries poisoned _ reaches]
        refine (retryStop_spec h poisoned _).mono ?_
        rintro ⟨_, c'⟩ s' ⟨rfl, coupled, dead⟩
        exact returned _ c' s' coupled dead
      | false =>
        obtain ⟨e, rejected⟩ := method_rejects _ reaches
        change Sim _ (Method.program P _ c) _ _
        rw [rejected]
        exact returned e c s h poisoned
  | openPairingWindow =>
    exact returning_spec ((openPairingWindow_spec h recorded).mono
      fun _ _ _ opened => ⟨opened.1, fun _ _ h => by cases h⟩) rfl
  | hardwareChanged =>
    exact returning_spec ((hardwareChanged_spec h recorded).mono
      fun _ _ _ observed => ⟨observed.1.1, fun _ _ h => by cases h⟩) rfl
  | actuatorFinished id result =>
    exact returning_spec ((actuatorFinished_spec h recorded call entered).mono
      fun _ _ _ verdict => ⟨verdict, fun _ _ h => by cases h⟩) rfl
  | poll =>
    exact returning_spec ((poll_spec h recorded fresh call).mono
      fun _ _ _ verdict => ⟨verdict, fun _ _ h => by cases h⟩) rfl

end Methods

/-- A method is only called on a controller. -/
theorem Record.controller (r : Record P f) (method : r.call.constructs = false) :
    ∃ c, r.before.controller = some c := by
  obtain ⟨before, call, trace, output, after, performed⟩ := r
  cases performed with
  | construct => cases method
  | method found => exact ⟨_, found⟩

/-- A call that leaves a controller has returned. -/
theorem Record.output_isSome (r : Record P f) (left : r.after.controller = some c) :
    ∃ out, r.output = some out := by
  obtain ⟨before, call, trace, output, after, performed⟩ := r
  cases performed with
  | construct =>
    obtain ⟨x, rfl, _⟩ := Option.bind_eq_some_iff.1 left
    exact ⟨_, rfl⟩
  | method =>
    obtain ⟨x, rfl, _⟩ := Option.map_eq_some_iff.1 left
    exact ⟨_, rfl⟩

/-- A method that has returned leaves a controller. -/
theorem Record.left (r : Record P f) (method : r.call.constructs = false) {out : Output}
    (returned : r.output = some out) : ∃ c', r.after.controller = some c' := by
  obtain ⟨before, call, trace, output, after, performed⟩ := r
  cases performed with
  | construct => cases method
  | method =>
    obtain ⟨x, rfl, _⟩ := Option.map_eq_some_iff.1 returned
    exact ⟨_, rfl⟩

/-- The abstract lock follows a call from `s` to `s'`. -/
structure Follows (r : Record P f) (s s' : Lock P f) : Prop where
  before : Tracks r.before s
  path : Path (lockSpec P f) (s.enter r.call r.before.controller) r.trace s'
  after : Tracks r.after s'
  built : r.call.constructs = true → ∀ c, r.after.controller = some c → Ready f c s'.1
  absent : ∀ n c, r.call.installs f = some n → r.after.controller = some c →
    r.before.disk = none
  returned : ∀ m c out c', r.call = .method m → r.before.controller = some c →
    r.output = some out → r.after.controller = some c' → Returned P f m c out c' s'.1

theorem Record.follows (r : Record P f) (h : Tracks r.before s) : ∃ s', Follows r s s' := by
  obtain ⟨before, call, trace, output, after, performed⟩ := r
  cases performed with
  | @construct k _ disk r exec =>
    obtain ⟨s', path, view, post⟩ :=
      Sim.sound (construct_spec (s.entering k before.controller) rfl) h.disk exec
    have returned : ∀ c, r.bind Except.toOption = some c → r = some (.ok c) := by
      intro c hc
      obtain ⟨x, rfl, hx⟩ := Option.bind_eq_some_iff.1 hc
      cases x with
      | error => cases hx
      | ok y => cases hx; rfl
    have ready : ∀ c, r.bind Except.toOption = some c → Ready f c s'.1 :=
      fun c hc => (post _ (returned c hc)).1 c rfl
    refine ⟨s', h, path, ⟨view, fun c hc => (ready c hc).toCoupled⟩, fun _ => ready, ?_,
      fun _ _ _ _ h => by cases h⟩
    intro n c installs hc
    rw [← h.disk]
    exact (post _ (returned c hc)).2 n c installs rfl
  | @method m c _ disk r found exec =>
    have coupled := (h.controller c found).enter m before.controller
    obtain ⟨s', path, view, post⟩ :=
      Sim.sound (method_spec coupled rfl rfl rfl found) h.disk exec
    refine ⟨s', h, path, ⟨view, ?_⟩, fun h => (by cases h), fun _ _ h => (by cases h), ?_⟩
    · intro c' hc'
      obtain ⟨x, rfl, rfl⟩ := Option.map_eq_some_iff.1 hc'
      exact (post x rfl).coupled
    · intro m' c₀ out c' hm hc₀ hout hc'
      cases hm
      cases found.symm.trans hc₀
      obtain ⟨x, rfl, rfl⟩ := Option.map_eq_some_iff.1 hc'
      cases hout
      exact post x rfl

namespace Follows
variable {r : Record P f} {s' : Lock P f}

/-- A method begins with the lock agreeing with the controller. -/
theorem coupled (h : Follows r s s') (found : r.before.controller = some c)
    (method : r.call.constructs = false) : Coupled f c (s.enter r.call r.before.controller).1 := by
  generalize r.call = k at method
  cases k with
  | construct => cases method
  | method m => exact (h.before.controller c found).enter m _

/-- What every effect keeps, with the effects of the call so far in view, holds after the
effects of any part of it. -/
theorem along {I : List (Event Answer) → Lock P f → Prop}
    (step : ∀ tr t ev t', I tr t → t.1.Step P f ev t'.1 → I (tr ++ [ev]) t')
    (enter : I [] (s.enter r.call r.before.controller)) {pre : List (Event Answer)} {t : Lock P f}
    (path : Path (lockSpec P f) (s.enter r.call r.before.controller) pre t) : I pre t :=
  path.history step enter

/-- Each effect of a call is a step of the lock that follows it. -/
theorem effect (h : Follows r s s') {pre post : List (Event Answer)} {ev : Event Answer}
    (split : r.trace = pre ++ ev :: post) :
    ∃ t t' : Lock P f, Path (lockSpec P f) (s.enter r.call r.before.controller) pre t
      ∧ t.1.Step P f ev t'.1 ∧ Path (lockSpec P f) t' post s'
      ∧ t.1.call = r.call ∧ t.1.entry = r.before.controller
      ∧ t.1.disk = storage.afterAll r.before.disk pre := by
  have path := h.path
  rw [split] at path
  obtain ⟨t, t', before, hs, rest⟩ := path.at
  have frame := Frame.path before
  refine ⟨t, t', before, hs, rest, frame.call, frame.entry, ?_⟩
  rw [← h.before.disk]
  exact before.view

end Follows

namespace Run
variable {r : Record P f} {rs rest : List (Record P f)}

/-- A run up to one of its calls is a run. -/
theorem upTo (run : Run P f) (h : run.records = rs ++ r :: rest) :
    ∃ earlier : Run P f, earlier.records = rs ∧ earlier.final = r.before := by
  obtain ⟨records, final, chain⟩ := run
  simp only at h
  generalize hd : Device.blank = d at chain
  induction chain generalizing rest with
  | nil => cases rs <;> cases h
  | @snoc e rs' r' before next ih =>
    rcases List.eq_nil_or_concat rest with rfl | ⟨rest, x, rfl⟩
    · obtain ⟨rfl, hr⟩ := List.append_inj' h rfl
      cases hr
      subst hd
      exact ⟨⟨rs', e, before⟩, rfl, next.symm⟩
    · have split : rs' ++ [r'] = (rs ++ r :: rest) ++ [x] := by simpa using h
      exact ih (List.append_inj' split rfl).1

/-- Induction over the calls of a run, each of which the abstract lock follows. -/
theorem calls {motive : List (Record P f) → Device → Prop} (blank : motive [] .blank)
    (call : ∀ rs r s s', Follows r s s' → motive rs r.before → motive (rs ++ [r]) r.after)
    (run : Run P f) : motive run.records run.final := by
  obtain ⟨records, final, chain⟩ := run
  change motive records final
  generalize hd : Device.blank = d at chain
  suffices both : (∃ s : Lock P f, Tracks final s) ∧ motive records final from both.2
  induction chain with
  | nil => subst hd; exact ⟨⟨.blank, .blank⟩, blank⟩
  | @snoc e rs r before next ih =>
    obtain ⟨⟨s, tracks⟩, holds⟩ := ih
    obtain ⟨s', follows⟩ := r.follows (next ▸ tracks)
    exact ⟨⟨s', follows.after⟩, call rs r s s' follows (next ▸ holds)⟩

/-- An invariant of the lock and the effects so far: it holds of the blank lock and is
kept by entering a call and by every effect. -/
structure Inductive (I : List Moment → Lock P f → Prop) : Prop where
  blank : I [] .blank
  enter : ∀ ms s call entry, I ms s → I ms (s.enter call entry)
  step : ∀ ms s ev s', I ms s → s.1.Step P f ev s'.1 →
    I (ms ++ [⟨s.1.call, s.1.entry, s.1.disk, ev⟩]) s'

variable {I J : List Moment → Lock P f → Prop} {pre post : List Moment}

theorem Inductive.and (h : Inductive I) (h' : Inductive J) :
    Inductive fun ms s => I ms s ∧ J ms s :=
  ⟨⟨h.blank, h'.blank⟩,
    fun ms s call entry both => ⟨h.enter ms s call entry both.1, h'.enter ms s call entry both.2⟩,
    fun ms s ev s' both hs => ⟨h.step ms s ev s' both.1 hs, h'.step ms s ev s' both.2 hs⟩⟩

private theorem history_path (h : Inductive I) {s' : Lock P f} {tr : List (Event Answer)}
    {ms : List Moment} (path : Path (lockSpec P f) s tr s') (holds : I ms s) :
    I (ms ++ momentsFrom s.1.call s.1.entry s.1.disk tr) s' := by
  induction path generalizing ms with
  | nil s => simpa [momentsFrom] using holds
  | cons head _ ih =>
    have rest := ih (h.step ms _ _ _ holds head)
    have frame := Frame.step head
    rw [frame.call, frame.entry, Abs.step_disk head] at rest
    simpa [momentsFrom] using rest

/-- An inductive invariant holds at the end of every run. -/
theorem history (h : Inductive I) (run : Run P f) : ∃ s, Tracks run.final s ∧ I run.moments s := by
  obtain ⟨records, final, chain⟩ := run
  simp only [Run.moments]
  generalize hd : Device.blank = d at chain
  induction chain with
  | nil => subst hd; exact ⟨.blank, .blank, h.blank⟩
  | @snoc e rs r before next ih =>
    obtain ⟨s, tracks, holds⟩ := ih
    obtain ⟨s', follows⟩ := r.follows (next ▸ tracks)
    refine ⟨s', follows.after, ?_⟩
    have done := history_path h follows.path (h.enter _ s r.call r.before.controller holds)
    have disk : (s.enter r.call r.before.controller).1.disk = r.before.disk :=
      tracks.disk.trans (by rw [next])
    rw [disk] at done
    rw [List.flatMap_append, List.flatMap_singleton]
    exact done

/-- An effect as a step of the abstract lock, in a state where `I` held. -/
def StepsFrom (I : List Moment → Lock P f → Prop) (pre : List Moment) (m : Moment) : Prop :=
  ∃ s s' : Lock P f, I pre s ∧ s.1.Step P f m.event s'.1
    ∧ m = ⟨s.1.call, s.1.entry, s.1.disk, m.event⟩

/-- Every effect of a run is a step of the abstract lock, from a state that satisfies any
inductive invariant with the effects before it. -/
theorem moment (h : Inductive I) (run : Run P f) {m : Moment}
    (split : run.moments = pre ++ m :: post) : StepsFrom I pre m := by
  have both : Inductive fun ms (s : Lock P f) => I ms s ∧
      ∀ pre m post, ms = pre ++ m :: post → StepsFrom I pre m := by
    refine ⟨⟨h.blank, fun pre m post h => by cases pre <;> cases h⟩,
      fun ms s call entry holds => ⟨h.enter ms s call entry holds.1, holds.2⟩, ?_⟩
    intro ms s ev s' holds hs
    refine ⟨h.step ms s ev s' holds.1 hs, fun pre m post split => ?_⟩
    rcases List.eq_nil_or_concat post with rfl | ⟨post, x, rfl⟩
    · obtain ⟨rfl, last⟩ := List.append_inj' split rfl
      cases last
      exact ⟨s, s', holds.1, hs, rfl⟩
    · have inner : ms ++ [⟨s.1.call, s.1.entry, s.1.disk, ev⟩] = (pre ++ m :: post) ++ [x] := by
        simpa using split
      exact holds.2 pre m post (List.append_inj' inner rfl).1
  obtain ⟨_, _, _, past⟩ := run.history both
  exact past pre m post split

/-- An inductive invariant holds after every prefix of the effects of a run. -/
theorem along (h : Inductive I) (run : Run P f) (split : run.moments = pre ++ post) :
    ∃ s, I pre s := by
  cases post with
  | nil =>
    obtain ⟨s, _, holds⟩ := run.history h
    exact ⟨s, by simpa [split] using holds⟩
  | cons m post =>
    obtain ⟨s, _, holds, _⟩ := run.moment h split
    exact ⟨s, holds⟩

/-- The abstract lock follows every call of a run, from a state that satisfies any
inductive invariant with the effects before the call. -/
theorem call (h : Inductive I) (run : Run P f) (split : run.records = rs ++ r :: rest) :
    ∃ s s', I (rs.flatMap Record.moments) s ∧ Follows r s s' := by
  obtain ⟨earlier, records, final⟩ := run.upTo split
  obtain ⟨s, tracks, holds⟩ := earlier.history h
  obtain ⟨s', follows⟩ := r.follows (final ▸ tracks)
  rw [Run.moments, records] at holds
  exact ⟨s, s', holds, follows⟩

theorem follows (run : Run P f) (hr : r ∈ run.records) : ∃ s s' : Lock P f, Follows r s s' := by
  obtain ⟨rs, rest, split⟩ := List.append_of_mem hr
  have always : Inductive fun _ (_ : Lock P f) => True :=
    ⟨trivial, fun _ _ _ _ h => h, fun _ _ _ _ h _ => h⟩
  obtain ⟨s, s', _, follows⟩ := run.call always split
  exact ⟨s, s', follows⟩

end Run

/-- A life of the abstract lock that follows these calls one after the other. -/
inductive Lives : List (Record P f) → Lock P f → Prop
  | blank : Lives [] .blank
  | call {rs : List (Record P f)} {s s' : Lock P f} (r : Record P f) (earlier : Lives rs s)
      (next : Follows r s s') : Lives (rs ++ [r]) s'

/-- The abstract lock lives through every run of the device and tracks it to its end. -/
theorem device_refines_lock (run : Run P f) :
    ∃ s : Lock P f, Lives run.records s ∧ Tracks run.final s := by
  obtain ⟨records, final, chain⟩ := run
  change ∃ s : Lock P f, Lives records s ∧ Tracks final s
  generalize hd : Device.blank = d at chain
  induction chain with
  | nil =>
    subst hd
    exact ⟨.blank, .blank, .blank⟩
  | snoc r before next ih =>
    obtain ⟨s, lives, tracks⟩ := ih
    obtain ⟨s', follows⟩ := r.follows (next ▸ tracks)
    exact ⟨s', lives.call r follows, follows.after⟩

end OpenLock
