import OpenLock.Abstract.Order
import OpenLock.Refinement.Run

/-! No request is driven twice, whatever fails or is retried. The durable watermark of a
credential is raised before its drive starts and is only ever cleared by a newer epoch. -/
namespace OpenLock
open Controller Effects DeviceSnapshot

variable {P : Primitives} {f : FactoryIdentity} {clocks : List ClockSample} {ow : Option Active}
  {m n : DeviceSnapshot} {cmd : Command} {x : Accepted}

/-- An authorization epoch, a credential and a sequence. -/
abbrev Triple := UInt64 × CredentialId × UInt64

/-- The command carries this triple: its credential is a grant of that epoch and identity
under some issuer, and its sequence is the third part. -/
def Carries (P : Primitives) (cmd : Command) (t : Triple) : Prop :=
  ∃ key g seq, readGrant P key cmd.credential = .ok g ∧ cmd.sequence = some seq
    ∧ t = (g.epoch, g.credentialId, seq)

theorem Carries.unique {t t' : Triple} (h : Carries P cmd t) (h' : Carries P cmd t') : t = t' := by
  obtain ⟨_, g, seq, read, sequence, rfl⟩ := h
  obtain ⟨_, g', seq', read', sequence', rfl⟩ := h'
  cases readGrant_unique read read'
  cases sequence.symm.trans sequence'
  rfl

/-- The store refuses this triple: its epoch is over or its sequence is not new. -/
def Consumed (disk : Option DeviceSnapshot) : Triple → Prop
  | (epoch, id, seq) => ∃ d, disk = some d
    ∧ (epoch < d.epoch ∨ (epoch = d.epoch ∧ seq ≤ d.watermark id))

/-- A consumed triple stays consumed. -/
theorem Consumed.step {s s' : Abs} {ev : Event Answer} {t : Triple} (h : Consumed s.disk t)
    (inv : s.Inv P f) (hs : s.Step P f ev s') : Consumed s'.disk t := by
  obtain ⟨epoch, id, seq⟩ := t
  obtain ⟨d, hd, spent⟩ := h
  obtain ⟨d', hd', advances⟩ := inv.step_advances hs hd
  refine ⟨d', hd', ?_⟩
  rcases spent with older | ⟨same, le⟩
  · exact .inl (UInt64.lt_of_lt_of_le older advances.epoch)
  · by_cases kept : d'.epoch = d.epoch
    · exact .inr ⟨same.trans kept.symm, UInt64.le_trans le (advances.watermark kept id)⟩
    · exact .inl (same ▸ UInt64.lt_of_le_of_ne advances.epoch (Ne.symm kept))

/-- A consumed triple cannot be authorized again. -/
theorem Authorized.unconsumed {m : DeviceSnapshot} {context : SessionContext} {g : Grant}
    {seq : UInt64} (h : Authorized P f m clocks context cmd g seq) :
    ¬ Consumed (some m) (g.epoch, g.credentialId, seq) := by
  obtain ⟨_, granted⟩ := checkGrant_ok.1 h.grant
  rintro ⟨_, ⟨⟩, older | ⟨_, le⟩⟩
  · rw [granted.epoch] at older
    exact UInt64.lt_irrefl _ older
  · exact absurd h.fresh (UInt64.not_lt.2 le)

def Accepted.triple (x : Accepted) : Triple := (x.grant.epoch, x.grant.credentialId, x.sequence)

theorem Acceptance.carries (h : Acceptance P f clocks ow x m n) : Carries P x.command x.triple := by
  obtain ⟨_, granted⟩ := checkGrant_ok.1 h.authorized.grant
  exact ⟨_, x.grant, x.sequence, granted.read, h.authorized.sequence, rfl⟩

theorem Acceptance.consumed (h : Acceptance P f clocks ow x m n) : Consumed (some n) x.triple := by
  obtain ⟨_, granted⟩ := checkGrant_ok.1 h.authorized.grant
  have epoch : n.epoch = m.epoch := congrArg AuthState.epoch h.auth
  have watermarks : n.watermarks = m.watermarks.insert x.grant.credentialId x.sequence :=
    congrArg AuthState.watermarks h.auth
  refine ⟨n, rfl, .inr ⟨granted.epoch.trans epoch.symm, ?_⟩⟩
  rw [watermark, watermarks, getElem?_insert_credential, if_pos rfl]
  exact UInt64.le_refl _

/-- The effect starts a drive for a command that carries the triple. -/
def Moment.DrivesFor (P : Primitives) (m : Moment) (t : Triple) : Prop :=
  m.drive.isSome ∧ ∃ context cmd, m.request = some (context, cmd) ∧ Carries P cmd t

/-- The effects so far and the lock: what was driven is consumed, and what is accepted now
was never driven. -/
structure Once (ms : List Moment) (s : Lock P f) : Prop where
  consumed : ∀ m ∈ ms, ∀ t, m.DrivesFor P t → Consumed s.1.disk t
  accepted : ∀ x, s.1.progress = .accepted x → Carries P x.command x.triple
    ∧ Consumed s.1.disk x.triple ∧ ∀ m ∈ ms, ¬ m.DrivesFor P x.triple
  carried : ∀ m ∈ ms, m.drive.isSome → ∀ context cmd, m.request = some (context, cmd) →
    ∃ t, Carries P cmd t
  once : ms.Pairwise fun m m' => ∀ t, m.DrivesFor P t → ¬ m'.DrivesFor P t

namespace Once
variable {ms : List Moment} {s s' : Lock P f} {ev : Event Answer}

/-- An effect that starts no drive keeps everything, if the accepted request stays or is
shown to be new. -/
private theorem extend (h : Once ms s) (hs : s.1.Step P f ev s'.1)
    (quiet : (⟨s.1.call, s.1.entry, s.1.disk, ev⟩ : Moment).drive = none)
    (accepted : ∀ x, s'.1.progress = .accepted x → Carries P x.command x.triple
      ∧ Consumed s'.1.disk x.triple ∧ ∀ m ∈ ms, ¬ m.DrivesFor P x.triple) :
    Once (ms ++ [⟨s.1.call, s.1.entry, s.1.disk, ev⟩]) s' := by
  have still : ∀ t, ¬ (⟨s.1.call, s.1.entry, s.1.disk, ev⟩ : Moment).DrivesFor P t := by
    rintro t ⟨starts, _⟩
    rw [quiet] at starts
    cases starts
  refine ⟨?_, ?_, ?_, ?_⟩
  · intro m hm t drives
    rcases List.mem_append.1 hm with hm | hm
    · exact (h.consumed m hm t drives).step s.2 hs
    · cases List.mem_singleton.1 hm
      exact absurd drives (still t)
  · intro x hx
    obtain ⟨carries, consumed, unused⟩ := accepted x hx
    refine ⟨carries, consumed, fun m hm => ?_⟩
    rcases List.mem_append.1 hm with hm | hm
    · exact unused m hm
    · cases List.mem_singleton.1 hm
      exact still _
  · intro m hm starts context cmd request
    rcases List.mem_append.1 hm with hm | hm
    · exact h.carried m hm starts context cmd request
    · cases List.mem_singleton.1 hm
      rw [quiet] at starts
      cases starts
  · rw [List.pairwise_append]
    refine ⟨h.once, List.pairwise_singleton _ _, fun m _ m' hm' t _ => ?_⟩
    cases List.mem_singleton.1 hm'
    exact still t

/-- A start: its request is the accepted one, and automatic drives have none. -/
private theorem start (h : Once ms s) (hs : s.1.Step P f ev s'.1) {a : Active}
    (armed : Armed s.1.progress a) {k : Option OpKey} (driven : s'.1.progress = .driven k) :
    Once (ms ++ [⟨s.1.call, s.1.entry, s.1.disk, ev⟩]) s' := by
  have asked : ∀ context cmd, s.1.request = some (context, cmd) →
      ∃ x, s.1.progress = .accepted x ∧ cmd = x.command := by
    intro context cmd request
    generalize hp : s.1.progress = pr at armed
    cases armed with
    | manual x _ _ _ _ =>
      cases request.symm.trans (s.2.request hp)
      exact ⟨x, rfl, rfl⟩
    | relock =>
      rw [Abs.request, s.2.polls hp] at request
      cases request
  have own : ∀ t, (⟨s.1.call, s.1.entry, s.1.disk, ev⟩ : Moment).DrivesFor P t →
      ∃ x, s.1.progress = .accepted x ∧ t = x.triple := by
    rintro t ⟨_, context, cmd, request, carries⟩
    obtain ⟨x, hx, rfl⟩ := asked context cmd request
    exact ⟨x, hx, carries.unique (h.accepted x hx).1⟩
  refine ⟨?_, ?_, ?_, ?_⟩
  · intro m hm t drives
    rcases List.mem_append.1 hm with hm | hm
    · exact (h.consumed m hm t drives).step s.2 hs
    · cases List.mem_singleton.1 hm
      obtain ⟨x, hx, rfl⟩ := own t drives
      exact (h.accepted x hx).2.1.step s.2 hs
  · intro x hx
    rw [driven] at hx
    cases hx
  · intro m hm starts context cmd request
    rcases List.mem_append.1 hm with hm | hm
    · exact h.carried m hm starts context cmd request
    · cases List.mem_singleton.1 hm
      obtain ⟨x, hx, rfl⟩ := asked context cmd request
      exact ⟨_, (h.accepted x hx).1⟩
  · rw [List.pairwise_append]
    refine ⟨h.once, List.pairwise_singleton _ _, fun m hm m' hm' t drives drives' => ?_⟩
    cases List.mem_singleton.1 hm'
    obtain ⟨x, hx, rfl⟩ := own t drives'
    exact (h.accepted x hx).2.2 m hm drives

/-- An effect that neither starts a drive nor changes how far the call has come. -/
private theorem same (h : Once ms s) (hs : s.1.Step P f ev s'.1)
    (quiet : (⟨s.1.call, s.1.entry, s.1.disk, ev⟩ : Moment).drive = none)
    (progress : s'.1.progress = s.1.progress) :
    Once (ms ++ [⟨s.1.call, s.1.entry, s.1.disk, ev⟩]) s' := by
  refine h.extend hs quiet fun x hx => ?_
  obtain ⟨carries, consumed, unused⟩ := h.accepted x (progress ▸ hx)
  exact ⟨carries, consumed.step s.2 hs, unused⟩

/-- A commit that succeeds. Only an acceptance arms a new triple. -/
private theorem commit (h : Once ms s) {n m : DeviceSnapshot} {pr : Progress} {s₀ : Abs}
    (hs : s.1.Step P f ⟨.commit n, .ok⟩ s'.1) (disk : s.1.disk = some m)
    (change : Change P f s₀ m n pr ow) (submitted : s.1 = s₀.submitted n pr ow)
    (progress : s'.1.progress = pr) :
    Once (ms ++ [⟨s.1.call, s.1.entry, s.1.disk, ⟨.commit n, .ok⟩⟩]) s' := by
  have unchanged : s.1.progress = s₀.progress := by rw [submitted]; rfl
  cases change with
  | accept x _ _ _ acceptance =>
    refine h.extend hs rfl fun y hy => ?_
    cases progress.symm.trans hy
    have stored : s'.1.disk = some n := Abs.step_disk hs
    refine ⟨acceptance.carries, ?_, ?_⟩
    · rw [stored]
      exact acceptance.consumed
    · intro m' hm' drives
      have consumed := h.consumed m' hm' _ drives
      rw [disk] at consumed
      exact acceptance.authorized.unconsumed consumed
  | upkeep upkeep =>
    rcases upkeep.progress with same | ⟨claimed, _⟩
    · exact h.same hs rfl (progress.trans (same.trans unchanged.symm))
    · exact h.extend hs rfl fun _ hx => by cases (claimed.symm.trans progress.symm).trans hx
  | claim | domain => exact h.extend hs rfl fun _ hx => by cases progress.symm.trans hx
  | effect | clock | trialEnded => exact h.same hs rfl (progress.trans unchanged.symm)

theorem step (h : Once ms s) (hs : s.1.Step P f ev s'.1) :
    Once (ms ++ [⟨s.1.call, s.1.entry, s.1.disk, ev⟩]) s' := by
  have moves := s.2.moves hs
  generalize ht : s'.1 = t at moves
  cases moves with
  | start id target ms' hold r a m reading _ _ _ _ _ _ armed =>
    exact h.start hs armed (by rw [ht]; rfl)
  | commit n r s₀ m pr ow _ _ disk _ change submitted =>
    cases r with
    | ok => exact h.commit hs disk change submitted (by rw [ht]; rfl)
    | lost | written => exact h.same hs rfl (by rw [ht]; rfl)
  | install n r => exact h.same hs rfl (by rw [ht]; cases r <;> rfl)
  | other _ _ drive _ _ progress => exact h.same hs drive (by rw [ht]; exact progress)

theorem blank : Once [] (Lock.blank : Lock P f) :=
  ⟨fun _ h => (by cases h), fun _ h => (by cases h), fun _ h => (by cases h), .nil⟩

theorem enter (h : Once ms s) (call : Call) (entry : Option Controller) :
    Once ms (s.enter call entry) :=
  ⟨h.consumed, fun _ h => (by cases h), h.carried, h.once⟩

theorem inductively : Run.Inductive (Once : List Moment → Lock P f → Prop) :=
  ⟨.blank, fun _ _ call entry h => h.enter call entry, fun _ _ _ _ h hs => h.step hs⟩

end Once

/-- At most one drive is ever started on behalf of commands that carry one triple, and so
no command is ever driven twice. -/
theorem drives_at_most_once (run : Run P f) : run.moments.Pairwise fun m m' =>
    m.drive.isSome → m'.drive.isSome → ∀ context cmd context' cmd',
      m.request = some (context, cmd) → m'.request = some (context', cmd') →
      (∀ t, Carries P cmd t → ¬ Carries P cmd' t) ∧ cmd ≠ cmd' := by
  obtain ⟨s, _, h⟩ := run.history Once.inductively
  refine h.once.imp_of_mem ?_
  intro m m' hm _ apart starts starts' context cmd context' cmd' request request'
  have distinct : ∀ t, Carries P cmd t → ¬ Carries P cmd' t := fun t carries carries' =>
    apart t ⟨starts, context, cmd, request, carries⟩ ⟨starts', context', cmd', request', carries'⟩
  refine ⟨distinct, ?_⟩
  rintro rfl
  obtain ⟨t, carries⟩ := h.carried m hm starts context cmd request
  exact distinct t carries carries

end OpenLock
