import OpenLock.Properties.Store

/-! Firmware: the security version never goes back, and the staged image is the one that
was acknowledged, verified and activated. The bootloader's staging area is not part of the
device; it is followed beside the run and only constrained by the calls made to it. -/
namespace OpenLock
open Controller Effects

variable {P : Primitives} {f : FactoryIdentity} {w : FirmwareManifest} {ev : Event Answer}
  {ms : List Moment}

/-- The bytes of the staging area. -/
abbrev Flash := Nat → UInt8

def Flash.read (φ : Flash) (offset length : Nat) : Bytes :=
  (List.range length).map fun i => φ (offset + i)

namespace Flash
variable {φ φ' : Flash}

theorem read_add (φ : Flash) (a b : Nat) : φ.read 0 (a + b) = φ.read 0 a ++ φ.read a b := by
  simp only [read, List.range_add, List.map_append, List.map_map, Nat.zero_add]
  rfl

theorem read_congr {n : Nat} (same : ∀ i < n, φ' i = φ i) : φ'.read 0 n = φ.read 0 n := by
  apply List.map_congr_left
  intro i hi
  rw [Nat.zero_add]
  exact same i (List.mem_range.1 hi)

end Flash

/-- What a call may do to the staging area: beginning and aborting may overwrite all of it,
a write changes only its own range, and the hash is that of the first bytes. -/
def Flash.Step (P : Primitives) (φ : Flash) : Event Answer → Flash → Prop
  | ⟨.bootBegin _ _, _⟩, _ => True
  | ⟨.bootAbort, _⟩, _ => True
  | ⟨.bootWrite offset data, r⟩, φ' =>
    (∀ i, i < offset.toNat ∨ offset.toNat + data.length ≤ i → φ' i = φ i)
      ∧ (r = .ok () → φ'.read offset.toNat data.length = data)
  | ⟨.bootImageHash length, .ok hash⟩, φ' => φ' = φ ∧ hash = P.sha256 (φ.read 0 length.toNat)
  | _, φ' => φ' = φ

theorem Flash.Step.still {φ φ' : Flash} (h : Flash.Step P φ ev φ') (calm : ev.effect.stages = false) :
    φ' = φ := by
  obtain ⟨e, x⟩ := ev
  cases e with
  | bootBegin | bootAbort | bootWrite => cases calm
  | bootImageHash =>
    cases x with
    | ok => exact h.1
    | error => exact h
  | _ => exact h

/-- A history of the staging area: its bytes after each part of these effects. -/
def Staging (P : Primitives) (φ : List Moment → Flash) (ms : List Moment) : Prop :=
  ∀ pre m post, ms = pre ++ m :: post → Flash.Step P (φ pre) m.event (φ (pre ++ [m]))

/-- None of these effects may change the staging area. -/
def Calm (ms : List Moment) : Prop := ∀ q ∈ ms, q.event.effect.stages = false

section Histories
variable {φ : List Moment → Flash} {ms pre post : List Moment} {m : Moment}

theorem Staging.before (h : Staging P φ (ms ++ post)) : Staging P φ ms := by
  rintro pre m mid rfl
  exact h pre m (mid ++ post) (by simp)

theorem Staging.last (h : Staging P φ (ms ++ [m])) : Flash.Step P (φ ms) m.event (φ (ms ++ [m])) :=
  h ms m [] rfl

theorem Calm.snoc (h : Calm ms) (calm : m.event.effect.stages = false) : Calm (ms ++ [m]) := by
  intro q hq
  rcases List.mem_append.1 hq with old | new
  · exact h q old
  · cases List.mem_singleton.1 new
    exact calm

/-- Calm effects leave the staging area as it is. -/
theorem Staging.calm (h : Staging P φ (pre ++ post)) (calm : Calm post) : φ (pre ++ post) = φ pre := by
  induction post using List.reverseRecOn with
  | nil => rw [List.append_nil]
  | append_singleton post m ih =>
    rw [← List.append_assoc] at h ⊢
    have still := h.last.still (calm m (by simp))
    rw [still]
    exact ih h.before fun q hq => calm q (List.mem_append_left _ hq)

end Histories

/-- The snapshot an effect puts into the store. -/
def Moment.stored (m : Moment) : Option DeviceSnapshot :=
  match m.event with
  | ⟨.commit n, .ok⟩ | ⟨.commit n, .written _⟩ => some n
  | _ => none

/-- The bytes the call of this effect was asked to stage. -/
def Moment.chunk (m : Moment) : Bytes :=
  match m.request with
  | some (_, ⟨_, _, .firmwareChunk _ data⟩) => data
  | _ => []

/-- The chunks acknowledged so far: those whose commit moved the durable count forward, as
long as the image is being received. -/
def acknowledge (acked : Bytes) (m : Moment) : Bytes :=
  match m.stored with
  | none => acked
  | some n =>
    if n.firmware.phase = .receiving then
      match m.disk with
      | none => []
      | some a =>
        if a.firmware.phase ≠ .receiving then []
        else if n.firmware.received = a.firmware.received then acked
        else acked ++ m.chunk
    else []

def acknowledged (ms : List Moment) : Bytes := ms.foldl acknowledge []

theorem acknowledged_snoc (ms : List Moment) (m : Moment) :
    acknowledged (ms ++ [m]) = acknowledge (acknowledged ms) m := by
  simp [acknowledged]

theorem acknowledge_receiving {acked : Bytes} {q : Moment} {a n : DeviceSnapshot}
    (stored : q.stored = some n) (found : q.disk = some a) (phase : n.firmware.phase = .receiving) :
    acknowledge acked q = if a.firmware.phase ≠ .receiving then []
      else if n.firmware.received = a.firmware.received then acked else acked ++ q.chunk := by
  rw [acknowledge, stored, found]
  exact if_pos phase

theorem Moment.chunk_eq (q : Moment) {context : SessionContext} {cmd : Command} {offset : UInt64}
    {data : Bytes} (request : q.request = some (context, cmd))
    (action : cmd.action = .firmwareChunk offset data) : q.chunk = data := by
  obtain ⟨_, _, _⟩ := cmd
  cases action
  rw [Moment.chunk, request]

theorem Call.installs_empty {call : Call} {n : DeviceSnapshot} (h : call.installs f = some n) :
    n.firmware.phase = .empty := by
  cases call with
  | method => cases h
  | construct k =>
    cases k with
    | provision | migrateLegacy =>
      cases h
      rfl
    | «open» => cases h

/-- The last answer of the bootloader or platform that the call remembers is an effect of
the call, and the staging area has not been touched since. -/
def Noticed (ms : List Moment) (s : Abs) : Prop :=
  ∀ ev, s.notes.head? = some ev → ∃ pre q post, ms = pre ++ q :: post ∧ q.event = ev
    ∧ q.call = s.call ∧ q.entry = s.entry ∧ Calm post

theorem Noticed.step {s s' : Lock P f} (h : Noticed ms s.1) (hs : s.1.Step P f ev s'.1) :
    Noticed (ms ++ [⟨s.1.call, s.1.entry, s.1.disk, ev⟩]) s'.1 := by
  have frame := Frame.step hs
  have old : ev.effect.stages = false → s'.1.notes = s.1.notes →
      Noticed (ms ++ [⟨s.1.call, s.1.entry, s.1.disk, ev⟩]) s'.1 := by
    intro calm notes ev' last
    rw [notes] at last
    obtain ⟨pre, q, post, rfl, event, call, entry, still⟩ := h ev' last
    exact ⟨pre, q, post ++ [⟨s.1.call, s.1.entry, s.1.disk, ev⟩], by simp, event,
      call.trans frame.call.symm, entry.trans frame.entry.symm, still.snoc calm⟩
  have reads := hs.reads
  generalize ht : s'.1 = t at reads old
  cases reads with
  | tick t =>
    refine old rfl ?_
    unfold Abs.tick
    split <;> rfl
  | hear => exact old rfl rfl
  | other _ _ _ _ notes staging => exact old staging notes
  | note =>
    rintro _ ⟨⟩
    exact ⟨ms, _, [], rfl, rfl, rfl, rfl, fun _ h => by cases h⟩

/-- The image the bootloader has staged was hashed in a request to finish it, recorded as
verified, and not touched since. -/
def Verified (ms : List Moment) (w : FirmwareManifest) : Prop :=
  ∃ pre q post, ms = pre ++ q :: post ∧ q.event = ⟨.bootImageHash w.size, .ok w.sha256⟩
    ∧ q.Requests (· = .firmwareFinish) ∧ Calm post
    ∧ ∃ r ∈ post, r.call = q.call ∧ r.entry = q.entry
      ∧ ∃ n, r.Stores n ∧ n.firmware.phase = .verified ∧ n.firmware.manifest = some w

theorem Verified.snoc {m : Moment} (h : Verified ms w) (calm : m.event.effect.stages = false) :
    Verified (ms ++ [m]) w := by
  obtain ⟨pre, q, post, rfl, event, request, still, r, hr, recorded⟩ := h
  exact ⟨pre, q, post ++ [m], by simp, event, request, still.snoc calm, r,
    List.mem_append_left _ hr, recorded⟩

/-- What the effects so far say about the stored firmware record and the staging area. -/
structure Custodian (ms : List Moment) (s : Lock P f) : Prop where
  noticed : Noticed ms s.1
  receiving : ∀ d, s.1.disk = some d → d.firmware.phase = .receiving → ∀ φ, Staging P φ ms →
    (φ ms).read 0 d.firmware.received.toNat = acknowledged ms
  verified : ∀ d w, s.1.disk = some d → d.firmware.phase = .verified ∨ d.firmware.phase = .trial →
    d.firmware.manifest = some w → Verified ms w

namespace Custodian
variable {ms : List Moment} {s s' : Lock P f} {ev : Event Answer}

/-- An effect that neither touches the staging area nor replaces the stored record. -/
private theorem quiet (h : Custodian ms s) (hs : s.1.Step P f ev s'.1)
    (disk : s'.1.disk = s.1.disk) (calm : ev.effect.stages = false)
    (stored : (⟨s.1.call, s.1.entry, s.1.disk, ev⟩ : Moment).stored = none) :
    Custodian (ms ++ [⟨s.1.call, s.1.entry, s.1.disk, ev⟩]) s' := by
  refine ⟨h.noticed.step hs, fun d hd phase φ staging => ?_, fun d w hd phase manifest => ?_⟩
  · rw [staging.last.still calm, acknowledged_snoc, acknowledge, stored]
    exact h.receiving d (disk ▸ hd) phase φ staging.before
  · exact (h.verified d w (disk ▸ hd) phase manifest).snoc calm

/-- The staging area changes only while nothing staged there is relied upon. -/
private theorem staging (h : Custodian ms s) (hs : s.1.Step P f ev s'.1)
    (stages : ev.effect.stages = true) :
    Custodian (ms ++ [⟨s.1.call, s.1.entry, s.1.disk, ev⟩]) s' := by
  obtain ⟨⟨quiet, x, _, _, m, mem, custody⟩, noted⟩ := hs.stages stages
  have stored : s.1.disk = some m := s.2.synced quiet.live m mem
  have disk : s'.1.disk = some m := by rw [noted]; exact stored
  refine ⟨h.noticed.step hs, fun d hd phase φ staging => ?_, fun d w hd phase manifest => ?_⟩
  · cases disk.symm.trans hd
    have kept := h.receiving m stored phase φ staging.before
    have last := staging.last
    obtain ⟨e, y⟩ := ev
    cases e with
    | bootBegin => exact absurd phase custody.1
    | bootAbort => cases phase.symm.trans custody
    | bootWrite offset data =>
      rw [acknowledged_snoc, acknowledge]
      refine (Flash.read_congr fun i hi => ?_).trans kept
      exact last.1 i (.inl (custody.2.1 ▸ hi))
    | _ => cases stages
  · cases disk.symm.trans hd
    exfalso
    obtain ⟨e, y⟩ := ev
    cases e with
    | bootBegin => exact phase.elim custody.2.1 custody.2.2
    | bootAbort => rcases phase with phase | phase <;> cases phase.symm.trans custody
    | bootWrite => rcases phase with phase | phase <;> cases phase.symm.trans custody.1
    | _ => cases stages

section Commit
variable {s₀ : Abs} {a n : DeviceSnapshot} {q : Moment}

/-- While an image is received, a commit keeps the count or has just staged the chunk it
adds to it. -/
private theorem received (h : Custodian ms s) (notes : s₀.notes = s.1.notes)
    (change : Change.Firmware P f s₀ a n) (disk : s.1.disk = some a) (found : q.disk = some a)
    (request : ∀ x, s₀.progress = .accepted x → q.request = some (x.context, x.command))
    (stored : q.stored = some n) (phase : n.firmware.phase = .receiving)
    {φ : List Moment → Flash} (staging : Staging P φ ms) :
    (φ ms).read 0 n.firmware.received.toNat = acknowledge (acknowledged ms) q := by
  rw [acknowledge_receiving stored found phase]
  cases change with
  | kept same =>
    have before : a.firmware.phase = .receiving := by rw [← same]; exact phase
    rw [if_neg (not_not.2 before), if_pos (by rw [same]), same]
    exact h.receiving a disk before φ staging
  | cleared empty => cases phase.symm.trans empty
  | ended _ _ ended =>
    generalize n.firmware = w at ended phase
    cases ended <;> cases phase
  | carried y accepted step witnessed =>
    have asked := request y accepted
    rw [notes] at witnessed
    generalize hw : n.firmware = w at step phase
    generalize n.signedManifest = signed at step
    generalize hy : y.command.action = action at step witnessed
    cases step with
    | begin _ _ _ _ _ _ _ _ idle =>
      rw [if_pos idle]
      rfl
    | verify | trial | abort => cases phase
    | chunk offset data m received before manifest bound =>
      obtain ⟨rfl, count, last⟩ := witnessed
      rw [hw] at count
      have kept := h.receiving a disk before φ staging
      obtain ⟨pre, w, post, rfl, event, _, _, calm⟩ := h.noticed _ last
      have staged : (φ (pre ++ w :: post)).read a.firmware.received.toNat data.length = data := by
        have whole : pre ++ w :: post = pre ++ [w] ++ post := by simp
        have wrote := staging pre w post rfl
        rw [event] at wrote
        rw [whole] at staging ⊢
        rw [staging.calm calm]
        exact wrote.2 rfl
      simp only at count
      rw [if_neg (not_not.2 before), count, Flash.read_add, kept, staged, q.chunk_eq asked hy]
      split
      · rename_i same
        have unmoved : received = a.firmware.received := same
        rw [unmoved] at count
        have empty : data = [] := List.eq_nil_of_length_eq_zero (by omega)
        rw [empty, List.append_nil]
      · rfl

/-- A commit relies on a verified image only if the call has just hashed it, or it was
relied upon before. -/
private theorem hashed (h : Custodian ms s) (notes : s₀.notes = s.1.notes)
    (change : Change.Firmware P f s₀ a n) (disk : s.1.disk = some a)
    (same : q.call = s.1.call ∧ q.entry = s.1.entry)
    (request : ∀ x, s₀.progress = .accepted x → q.request = some (x.context, x.command))
    (stores : q.Stores n) (calm : q.event.effect.stages = false)
    (phase : n.firmware.phase = .verified ∨ n.firmware.phase = .trial)
    (manifest : n.firmware.manifest = some w) : Verified (ms ++ [q]) w := by
  cases change with
  | kept kept =>
    rw [kept] at phase manifest
    exact (h.verified a w disk phase manifest).snoc calm
  | cleared empty => rcases phase with phase | phase <;> cases phase.symm.trans empty
  | ended _ _ ended =>
    generalize n.firmware = w' at ended phase
    cases ended <;> rcases phase with phase | phase <;> cases phase
  | carried y accepted step witnessed =>
    have asked := request y accepted
    rw [notes] at witnessed
    generalize hw : n.firmware = w' at step phase manifest
    generalize n.signedManifest = signed at step
    generalize hy : y.command.action = action at step witnessed
    cases step with
    | begin | abort => rcases phase with phase | phase <;> cases phase
    | chunk _ _ _ _ before =>
      rcases phase with phase | phase <;> cases before.symm.trans phase
    | trial before => exact (h.verified a w disk (.inl before) manifest).snoc calm
    | verify m before stored =>
      obtain ⟨w', known, last⟩ := witnessed
      cases known.symm.trans manifest
      obtain ⟨pre, r, post, rfl, event, call, entry, still⟩ := h.noticed _ last
      have alike : q.call = r.call ∧ q.entry = r.entry :=
        ⟨same.1.trans call.symm, same.2.trans entry.symm⟩
      refine ⟨pre, r, post ++ [q], by simp, event, ⟨y.context, y.command, ?_, hy⟩, still.snoc calm,
        q, by simp, alike.1, alike.2, n, stores, by rw [hw], by rw [hw]; exact manifest⟩
      rw [Moment.request, ← alike.1, ← alike.2]
      exact asked

end Commit

theorem step (h : Custodian ms s) (hs : s.1.Step P f ev s'.1) :
    Custodian (ms ++ [⟨s.1.call, s.1.entry, s.1.disk, ev⟩]) s' := by
  have noticed := h.noticed.step hs
  cases stages : ev.effect.stages with
  | true => exact h.staging hs stages
  | false =>
    have moves := s.2.moves hs
    generalize ht : s'.1 = t at moves
    cases moves with
    | start => exact h.quiet hs (by rw [ht]; rfl) rfl rfl
    | other _ _ _ durable disk =>
      refine h.quiet hs (by rw [ht]; exact disk) stages ?_
      obtain ⟨e, x⟩ := ev
      cases e with
      | commit n => exact absurd rfl (durable n)
      | _ => rfl
    | install n x empty installs =>
      cases x with
      | lost => exact h.quiet hs (by rw [ht]; rfl) rfl rfl
      | ok | written =>
        have fresh : ∀ d, s'.1.disk = some d → d.firmware.phase = .empty := by
          rw [ht]
          rintro _ ⟨⟩
          exact Call.installs_empty installs
        refine ⟨noticed, fun d hd phase => ?_, fun d _ hd phase => ?_⟩
        · cases phase.symm.trans (fresh d hd)
        · rcases phase with phase | phase <;> cases phase.symm.trans (fresh d hd)
    | commit n x s₀ a pr ow _ _ disk _ change submitted =>
      have notes : s₀.notes = s.1.notes := by rw [submitted]; rfl
      have request : ∀ y, s₀.progress = .accepted y → (⟨s.1.call, s.1.entry, s.1.disk,
          ⟨.commit n, x⟩⟩ : Moment).request = some (y.context, y.command) := by
        intro y accepted
        exact s.2.request (by rw [submitted]; exact accepted)
      have replaced : s'.1.disk = some n → (⟨s.1.call, s.1.entry, s.1.disk, ⟨.commit n, x⟩⟩ :
          Moment).stored = some n → (∀ e, x ≠ .lost e) →
          Custodian (ms ++ [⟨s.1.call, s.1.entry, s.1.disk, ⟨.commit n, x⟩⟩]) s' := by
        intro after stored kept
        refine ⟨noticed, fun d hd phase φ staging => ?_, fun d w hd phase manifest => ?_⟩
        · cases after.symm.trans hd
          rw [staging.last.still rfl, acknowledged_snoc]
          exact h.received notes change.firmware disk disk request stored phase staging.before
        · cases after.symm.trans hd
          exact h.hashed notes change.firmware disk ⟨rfl, rfl⟩ request ⟨x, rfl, kept⟩ rfl phase
            manifest
      cases x with
      | lost => exact h.quiet hs (by rw [ht]; rfl) rfl rfl
      | ok => exact replaced (by rw [ht]; rfl) rfl fun _ h => by cases h
      | written => exact replaced (by rw [ht]; rfl) rfl fun _ h => by cases h

theorem inductively : Run.Inductive (Custodian : List Moment → Lock P f → Prop) :=
  ⟨⟨fun _ h => (by cases h), fun _ h => (by cases h), fun _ _ h => (by cases h)⟩,
    fun _ _ _ _ h => ⟨fun _ h => (by cases h), h.receiving, h.verified⟩,
    fun _ _ _ _ h hs => h.step hs⟩

end Custodian

/-- A commit of a run and the change behind it, with what the effects before it say. -/
structure Recommitted (P : Primitives) (f : FactoryIdentity) (pre : List Moment) (q : Moment)
    (a n : DeviceSnapshot) (s : Abs) : Prop where
  change : Change.Firmware P f s a n
  noticed : Noticed pre s
  call : s.call = q.call
  entry : s.entry = q.entry
  accepted : ∀ x, s.progress = .accepted x → q.request = some (x.context, x.command)

section Runs
variable {run : Run P f} {pre post : List Moment} {q : Moment} {a n : DeviceSnapshot} {s : Abs}

theorem Run.replaced (split : run.moments = pre ++ q :: post) (found : storeAfter pre = some a)
    (stores : q.Stores n) : ∃ s, Recommitted P f pre q a n s := by
  obtain ⟨s, s', ⟨forward, custodian⟩, hs, hq⟩ :=
    run.moment (Forward.inductively.and Custodian.inductively) split
  obtain ⟨x, event, _⟩ := stores
  rw [event] at hs hq
  have disk : s.1.disk = some a := forward.disk.trans found
  have moves := s.2.moves hs
  generalize s'.1 = t at moves
  cases moves with
  | commit _ _ s₀ m pr ow _ _ disk' _ change submitted =>
    cases disk.symm.trans disk'
    have same : s₀.notes = s.1.notes ∧ s₀.call = s.1.call ∧ s₀.entry = s.1.entry
        ∧ s₀.progress = s.1.progress := by
      rw [submitted]
      exact ⟨rfl, rfl, rfl, rfl⟩
    obtain ⟨notes, call, entry, progress⟩ := same
    refine ⟨s₀, change.firmware, ?_, by rw [hq, call], by rw [hq, entry], fun x accepted => ?_⟩
    · intro ev last
      rw [notes] at last
      rw [call, entry]
      exact custodian.noticed ev last
    · rw [hq]
      exact s.2.request (progress ▸ accepted)
  | install _ _ empty =>
    rw [empty] at disk
    cases disk
  | other _ _ _ durable => exact absurd rfl (durable n)

/-- The security version is raised by the confirmed outcome of the manifest on trial. -/
def ConfirmsTrial (pre : List Moment) (q : Moment) (a n : DeviceSnapshot) : Prop :=
  ∃ w, a.firmware.phase = .trial ∧ a.firmware.manifest = some w
    ∧ n.firmware = { a.firmware with phase := .confirmed, securityVersion := w.securityVersion }
    ∧ (q.call = .method .poll ∨ q.call.constructs = true)
    ∧ ∃ before o after, pre = before ++ o :: after
      ∧ o.event = ⟨.bootOutcome w, .ok .confirmed⟩ ∧ o.call = q.call ∧ o.entry = q.entry

theorem Recommitted.confirms (h : Recommitted P f pre q a n s)
    (raised : n.firmware.securityVersion ≠ a.firmware.securityVersion) :
    ConfirmsTrial pre q a n := by
  cases h.change with
  | kept same => exact absurd (by rw [same]) raised
  | cleared _ version => exact absurd version raised
  | carried x _ step =>
    generalize n.firmware = w at step raised
    generalize n.signedManifest = signed at step
    generalize x.command.action = action at step
    cases step <;> exact absurd rfl raised
  | ended call trial ended seen =>
    rw [h.call] at call
    generalize hw : n.firmware = w at ended seen raised
    cases ended with
    | rolledBack => exact absurd rfl raised
    | confirmed m manifest =>
      obtain ⟨w, manifest', last⟩ := seen rfl
      cases manifest.symm.trans manifest'
      obtain ⟨before, o, after, split, event, same, entry, _⟩ := h.noticed _ last
      exact ⟨m, trial, manifest, hw, call, before, o, after, split, event, same.trans h.call,
        entry.trans h.entry⟩

/-- The count grows by exactly the length of the chunk at its end. -/
theorem Recommitted.counts (h : Recommitted P f pre q a n s) (phase : n.firmware.phase = .receiving)
    (before : a.firmware.phase = .receiving) :
    n.firmware = a.firmware ∨ ∃ data, q.Requests (· = .firmwareChunk a.firmware.received data)
      ∧ n.firmware.received.toNat = a.firmware.received.toNat + data.length := by
  cases h.change with
  | kept same => exact .inl same
  | cleared empty => cases phase.symm.trans empty
  | ended _ _ ended =>
    generalize n.firmware = w at ended phase
    cases ended <;> cases phase
  | carried x accepted step witnessed =>
    have asked := h.accepted x accepted
    generalize hw : n.firmware = w at step phase
    generalize n.signedManifest = signed at step
    generalize hy : x.command.action = action at step witnessed
    cases step with
    | begin _ _ _ _ _ _ _ _ idle => exact absurd before idle
    | verify | trial | abort => cases phase
    | chunk offset data =>
      obtain ⟨rfl, count, _⟩ := witnessed
      rw [hw] at count
      exact .inr ⟨data, ⟨x.context, x.command, asked, hy⟩, count⟩

/-- An effect that carries out a request finds the record it needs in the store. -/
theorem Run.custody (split : run.moments = pre ++ q :: post)
    (privileged : q.event.effect.privileged = true) (driveless : q.event.effect.drive = none) :
    ∃ s : Lock P f, ∃ d, Custodian pre s ∧ s.1.disk = some d ∧ storeAfter pre = some d
      ∧ Sound P f d ∧ Custody d q.event.effect := by
  obtain ⟨s, s', ⟨forward, custodian⟩, hs, _⟩ :=
    run.moment (Forward.inductively.and Custodian.inductively) split
  obtain ⟨quiet, _, _, _, m, mem, custody⟩ := hs.acts privileged driveless
  have disk : s.1.disk = some m := s.2.synced quiet.live m mem
  exact ⟨s, m, custodian, disk, forward.disk.symm.trans disk, s.2.disk m disk, custody⟩

end Runs

/-- The firmware record of a snapshot in the store. -/
theorem Run.manifest_valid (run : Run P f) {pre post : List Moment} {d : DeviceSnapshot}
    (split : run.moments = pre ++ post) (found : storeAfter pre = some d)
    (manifest : d.firmware.manifest = some w) :
    StoredManifest P f d.firmware d.signedManifest w := by
  obtain ⟨s, forward⟩ := run.along Forward.inductively split
  have valid := (s.2.disk d (forward.disk.trans found)).valid.auth.firmware
  unfold FirmwareValid at valid
  split at valid
  · cases valid.manifest.symm.trans manifest
  · obtain ⟨m, stored⟩ := valid
    cases stored.manifest.symm.trans manifest
    exact stored

/-- Firmware anti-rollback and custody of the staging area. -/
structure FirmwareCustody (run : Run P f) : Prop where
  /-- The durable security version never falls. -/
  version : ∀ pre mid post a b, run.moments = pre ++ mid ++ post → storeAfter pre = some a →
    storeAfter (pre ++ mid) = some b → a.firmware.securityVersion ≤ b.firmware.securityVersion
  /-- It rises only when the bootloader confirms the trial. -/
  confirmed : ∀ pre q post a n, run.moments = pre ++ q :: post → storeAfter pre = some a →
    q.Stores n → n.firmware.securityVersion ≠ a.firmware.securityVersion →
    ConfirmsTrial pre q a n
  /-- A stored manifest is one the factory's root signed. -/
  manifest : ∀ pre post d w, run.moments = pre ++ post → storeAfter pre = some d →
    d.firmware.manifest = some w → StoredManifest P f d.firmware d.signedManifest w
  /-- The count of received bytes follows the chunks. -/
  received : ∀ pre q post a n, run.moments = pre ++ q :: post → storeAfter pre = some a →
    q.Stores n → n.firmware.phase = .receiving → a.firmware.phase = .receiving →
    n.firmware = a.firmware ∨ ∃ data, q.Requests (· = .firmwareChunk a.firmware.received data)
      ∧ n.firmware.received.toNat = a.firmware.received.toNat + data.length
  /-- A chunk is written where the last one ended and within the announced size. -/
  written : ∀ pre q post offset data x, run.moments = pre ++ q :: post →
    q.event = ⟨.bootWrite offset data, x⟩ → ∃ d w, storeAfter pre = some d
      ∧ d.firmware.phase = .receiving ∧ offset = d.firmware.received
      ∧ d.firmware.manifest = some w ∧ offset.toNat + data.length ≤ w.size.toNat
  /-- The staging area holds exactly the acknowledged bytes. -/
  staged : ∀ φ, Staging P φ run.moments → ∀ pre post d, run.moments = pre ++ post →
    storeAfter pre = some d → d.firmware.phase = .receiving →
    (φ pre).read 0 d.firmware.received.toNat = acknowledged pre
  /-- What is activated was signed and verified, and is what the staging area holds. -/
  activated : ∀ pre q post w signed x, run.moments = pre ++ q :: post →
    q.event = ⟨.bootActivate w signed, x⟩ → readManifest P ⟨f.firmwareRoot⟩ signed = .ok w
      ∧ Verified pre w
      ∧ ∀ φ, Staging P φ run.moments → P.sha256 ((φ pre).read 0 w.size.toNat) = w.sha256

theorem firmware_custody (run : Run P f) : FirmwareCustody run where
  version pre mid post a b split found later := by
    obtain ⟨d, hd, advances⟩ := run.advances split found
    cases later.symm.trans hd
    exact advances.security
  confirmed pre q post a n split found stores raised := by
    obtain ⟨s, replaced⟩ := Run.replaced split found stores
    exact replaced.confirms raised
  manifest pre post d w split found manifest := run.manifest_valid split found manifest
  received pre q post a n split found stores phase before := by
    obtain ⟨s, replaced⟩ := Run.replaced split found stores
    exact replaced.counts phase before
  written pre q post offset data x split event := by
    obtain ⟨s, d, _, _, found, _, custody⟩ :=
      Run.custody split (by rw [event]; rfl) (by rw [event]; rfl)
    rw [event] at custody
    obtain ⟨phase, count, w, manifest, bound⟩ := custody
    exact ⟨d, w, found, phase, count, manifest, bound⟩
  staged φ staging pre post d split found phase := by
    obtain ⟨s, forward, custodian⟩ :=
      run.along (Forward.inductively.and Custodian.inductively) split
    rw [split] at staging
    exact custodian.receiving d (forward.disk.trans found) phase φ staging.before
  activated pre q post w signed x split event := by
    obtain ⟨s, d, custodian, disk, found, _, custody⟩ :=
      Run.custody split (by rw [event]; rfl) (by rw [event]; rfl)
    rw [event] at custody
    obtain ⟨phase, manifest, rfl⟩ := custody
    have verified := custodian.verified d w disk (.inr phase) manifest
    refine ⟨(run.manifest_valid split found manifest).read, verified, fun φ staging => ?_⟩
    obtain ⟨before, h, after, rfl, hash, _, calm, _⟩ := verified
    have whole : before ++ h :: after = before ++ [h] ++ after := by simp
    rw [split, whole] at staging
    have history := staging.before
    have hashed := history before h after (by simp)
    rw [hash] at hashed
    rw [whole, history.calm calm, hashed.1]
    exact hashed.2.symm

end OpenLock
