import OpenLock.Properties.Store

/-! Unlock uses. A use is counted durably before its drive starts and never given back, so
a grant with a limit causes no more unlock drives than the limit. -/
namespace OpenLock
open Controller Effects DeviceSnapshot

variable {P : Primitives} {f : FactoryIdentity} {m n : DeviceSnapshot} {ow : Option Active}
  {x : Accepted} {clocks : List ClockSample} {pr : Progress}

/-- The grant behind a request, read under the issuer in the store. -/
def Moment.grant (P : Primitives) (m : Moment) : Option Grant := do
  let d ← m.disk
  let owner ← d.owner
  let (_, cmd) ← m.request
  (readGrant P ⟨owner.issuer⟩ cmd.credential).toOption

/-- The grant for which this effect starts an unlock drive. -/
def Moment.unlocker (P : Primitives) (m : Moment) : Option Grant :=
  match m.drive with
  | some (_, .unlock) => m.grant P
  | _ => none

/-- The unlock drives started for a credential in an epoch. -/
def unlocks (P : Primitives) (ms : List Moment) (epoch : UInt64) (id : CredentialId) : Nat :=
  ms.countP fun m => (m.unlocker P).any fun g => g.epoch == epoch && g.credentialId == id

/-- The unlock drives started under a grant. -/
def unlocksUnder (P : Primitives) (ms : List Moment) (g : Grant) : Nat :=
  ms.countP fun m => m.unlocker P == some g

/-- The uses of a credential that a migration makes durable. -/
def Moment.imported (m : Moment) (epoch : UInt64) (id : CredentialId) : Nat :=
  match m.call, m.disk, storage.after m.disk m.event with
  | .construct (.migrateLegacy legacy _ _), none, some _ =>
    if legacy.epoch = epoch then (legacy.usage[id]?.getD 0).toNat else 0
  | _, _, _ => 0

def imported (ms : List Moment) (epoch : UInt64) (id : CredentialId) : Nat :=
  (ms.map fun m => m.imported epoch id).sum

section Ledger
variable (P : Primitives) (ms : List Moment) (m : Moment) (epoch : UInt64) (id : CredentialId)

/-- What the durable use counter of a credential must cover. -/
def owed : Nat := unlocks P ms epoch id + imported ms epoch id

theorem owed_append : owed P (ms ++ [m]) epoch id = owed P ms epoch id
    + (if (m.unlocker P).any fun g => g.epoch == epoch && g.credentialId == id then 1 else 0)
    + m.imported epoch id := by
  simp only [owed, unlocks, imported, List.countP_append, List.countP_singleton, List.map_append,
    List.map_cons, List.map_nil, List.sum_append, List.sum_singleton]
  omega

variable {P ms m epoch id}

theorem imported_eq_zero (same : storage.after m.disk m.event = m.disk) :
    m.imported epoch id = 0 := by
  unfold Moment.imported
  rw [same]
  split
  · rename_i none some
    rw [none] at some
    cases some
  · rfl

/-- An effect that neither drives nor touches the store owes nothing. -/
theorem owed_other (drive : m.drive = none) (same : storage.after m.disk m.event = m.disk) :
    owed P (ms ++ [m]) epoch id = owed P ms epoch id := by
  rw [owed_append, imported_eq_zero same, Moment.unlocker, drive]
  rfl

theorem unlocksUnder_le (g : Grant) :
    unlocksUnder P ms g ≤ owed P ms g.epoch g.credentialId := by
  refine Nat.le_trans (List.countP_mono_left fun m _ h => ?_) (Nat.le_add_right _ _)
  rw [beq_iff_eq] at h
  simp [h]

end Ledger

/-- The use an accepted unlock has paid and not yet driven. -/
def Progress.credit (p : Progress) (id : CredentialId) : Nat :=
  match p with
  | .accepted x => if x.reserved ∧ x.grant.credentialId = id then 1 else 0
  | _ => 0

/-- The accepted request, as the store knows it. -/
def Backed (P : Primitives) (disk : Option DeviceSnapshot) (x : Accepted) : Prop :=
  ∃ d o, disk = some d ∧ d.owner = some o
    ∧ readGrant P ⟨o.issuer⟩ x.command.credential = .ok x.grant ∧ x.grant.epoch = d.epoch
    ∧ (x.reserved = true → ∀ max, x.grant.maxUses = some max →
      d.usesOf x.grant.credentialId ≤ max)

/-- The new counter of an accepted request. -/
theorem Acceptance.usesOf (h : Acceptance P f clocks ow x m n) (id : CredentialId) :
    (n.usesOf id).toNat = (m.usesOf id).toNat + (Progress.accepted x).credit id := by
  have uses := congrArg AuthState.uses h.auth
  simp only [auth_uses, Accepted.auth] at uses
  simp only [DeviceSnapshot.usesOf, uses, Progress.credit]
  cases paid : x.reserved with
  | false => simp
  | true =>
    have range := (h.reserved paid).2.range
    have one : (1 : UInt32).toNat = 1 := rfl
    simp only [if_true, true_and]
    rw [getElem?_insert_credential]
    split
    · rename_i same
      subst same
      simp only [DeviceSnapshot.usesOf] at range ⊢
      rw [Option.getD_some, UInt32.toNat_add]
      omega
    · rfl

theorem Acceptance.backed (h : Acceptance P f clocks ow x m n) : Backed P (some n) x := by
  obtain ⟨o, granted⟩ := checkGrant_ok.1 h.authorized.grant
  have epoch : n.epoch = m.epoch := congrArg AuthState.epoch h.auth
  have owner : n.owner = m.owner := congrArg AuthState.owner h.auth
  refine ⟨n, o, rfl, owner.trans granted.owner, granted.read, granted.epoch.trans epoch.symm, ?_⟩
  intro paid max limit
  have below := (h.reserved paid).2.limit max limit
  have count := h.usesOf x.grant.credentialId
  simp only [Progress.credit, paid, and_self, if_true] at count
  rw [UInt32.le_iff_toNat_le]
  rw [UInt32.lt_iff_toNat_lt] at below
  omega

/-- A change that keeps the ledger keeps a request backed. -/
theorem Backed.ledger (h : Backed P (some m) x) (ledger : n.auth.ledger = m.auth.ledger) :
    Backed P (some n) x := by
  simp only [AuthState.ledger, Prod.mk.injEq, auth_owner, auth_epoch, auth_uses] at ledger
  obtain ⟨owner, epoch, uses, _⟩ := ledger
  obtain ⟨_, o, ⟨⟩, ho, read, he, limit⟩ := h
  refine ⟨n, o, rfl, owner.trans ho, read, he.trans epoch.symm, ?_⟩
  simp only [DeviceSnapshot.usesOf, uses] at limit ⊢
  exact limit

/-- The counters cover every unlock drive so far and the one just paid for. -/
structure Counted (ms : List Moment) (s : Lock P f) : Prop where
  future : ∀ epoch id, (∀ d, s.1.disk = some d → d.epoch < epoch) → owed P ms epoch id = 0
  paid : ∀ d, s.1.disk = some d → ∀ id,
    owed P ms d.epoch id + s.1.progress.credit id ≤ (d.usesOf id).toNat
  accepted : ∀ x, s.1.progress = .accepted x → Backed P s.1.disk x
  named : ∀ m ∈ ms, ∀ id, m.drive = some (id, .unlock) →
    ∃ d g, m.disk = some d ∧ m.unlocker P = some g ∧ g.epoch = d.epoch
  limited : ∀ g max, g.maxUses = some max → unlocksUnder P ms g ≤ max.toNat

namespace Counted
variable {ms : List Moment} {s s' : Lock P f} {ev : Event Answer} {r : CommitAnswer}

theorem blank : Counted [] (Lock.blank : Lock P f) :=
  ⟨fun _ _ _ => rfl, fun _ h => (by cases h), fun _ h => (by cases h), fun _ h => (by cases h),
    fun _ _ _ => Nat.zero_le _⟩

theorem enter (h : Counted ms s) (call : Call) (entry : Option Controller) :
    Counted ms (s.enter call entry) := by
  refine ⟨h.future, fun d hd id => ?_, fun _ h => (by cases h), h.named, h.limited⟩
  exact Nat.le_trans (Nat.le_add_right _ _) (h.paid d hd id)

/-- An effect without an unlock drive: what remains is to account for the store. -/
private theorem extend (h : Counted ms s)
    (quiet : (⟨s.1.call, s.1.entry, s.1.disk, ev⟩ : Moment).unlocker P = none)
    (drive : ∀ id, (⟨s.1.call, s.1.entry, s.1.disk, ev⟩ : Moment).drive ≠ some (id, .unlock))
    (future : ∀ epoch id, (∀ d, s'.1.disk = some d → d.epoch < epoch) →
      owed P (ms ++ [⟨s.1.call, s.1.entry, s.1.disk, ev⟩]) epoch id = 0)
    (paid : ∀ d, s'.1.disk = some d → ∀ id,
      owed P (ms ++ [⟨s.1.call, s.1.entry, s.1.disk, ev⟩]) d.epoch id + s'.1.progress.credit id
        ≤ (d.usesOf id).toNat)
    (accepted : ∀ x, s'.1.progress = .accepted x → Backed P s'.1.disk x) :
    Counted (ms ++ [⟨s.1.call, s.1.entry, s.1.disk, ev⟩]) s' := by
  refine ⟨future, paid, accepted, ?_, ?_⟩
  · intro m hm id starts
    rcases List.mem_append.1 hm with hm | hm
    · exact h.named m hm id starts
    · cases List.mem_singleton.1 hm
      exact absurd starts (drive id)
  · intro g max limit
    have under := h.limited g max limit
    rw [unlocksUnder, List.countP_append, List.countP_singleton, quiet]
    exact under

/-- An effect that leaves the store and the progress of the call alone. -/
private theorem other (h : Counted ms s) (hs : s.1.Step P f ev s'.1)
    (drive : ev.effect.drive = none) (disk : s'.1.disk = s.1.disk)
    (progress : s'.1.progress = s.1.progress) :
    Counted (ms ++ [⟨s.1.call, s.1.entry, s.1.disk, ev⟩]) s' := by
  have same : storage.after s.1.disk ev = s.1.disk := (Abs.step_disk hs).symm.trans disk
  refine h.extend ?_ ?_ ?_ ?_ ?_
  · simp only [Moment.unlocker, Moment.drive, drive]
  · simp only [Moment.drive, drive]
    exact fun _ h => by cases h
  · intro epoch id newer
    rw [owed_other (m := ⟨s.1.call, s.1.entry, s.1.disk, ev⟩) drive same]
    exact h.future epoch id (disk ▸ newer)
  · intro d hd id
    rw [owed_other (m := ⟨s.1.call, s.1.entry, s.1.disk, ev⟩) drive same, progress]
    exact h.paid d (disk ▸ hd) id
  · intro x hx
    rw [disk]
    exact h.accepted x (progress ▸ hx)

/-- A start spends the use that its acceptance paid. -/
private theorem start (h : Counted ms s) {id : ActuationId} {target : ActionTarget}
    {releaseMs : UInt32} {hold : Bool} {r : Except Error Unit} {a : Active}
    (armed : Armed s.1.progress a) (toward : a.target = target)
    (driven : s'.1 = s.1.drive a) :
    Counted (ms ++ [⟨s.1.call, s.1.entry, s.1.disk, ⟨.startAction id target releaseMs hold, r⟩⟩])
      s' := by
  have disk' : s'.1.disk = s.1.disk := by rw [driven]; rfl
  have credit' : ∀ i, s'.1.progress.credit i = 0 := by
    intro i
    rw [driven]
    rfl
  have unaccepted : ∀ x, s'.1.progress ≠ .accepted x := by
    intro x hx
    rw [driven] at hx
    cases hx
  cases target with
  | lock =>
    refine h.extend rfl (fun _ h => (by cases h)) ?_ ?_ fun x hx => absurd hx (unaccepted x)
    · intro epoch i newer
      rw [owed_append, imported_eq_zero rfl]
      exact h.future epoch i (disk' ▸ newer)
    · intro d hd i
      rw [owed_append, imported_eq_zero rfl, credit']
      exact Nat.le_trans (Nat.le_add_right _ _) (h.paid d (disk' ▸ hd) i)
  | unlock =>
    -- Only a manual unlock drives towards unlock, and it has reserved its use.
    obtain ⟨x, hx, paid⟩ : ∃ x, s.1.progress = .accepted x ∧ x.reserved = true := by
      generalize hp : s.1.progress = pr at armed
      cases armed with
      | manual x _ _ _ action =>
        rcases action with ⟨_, paid, _⟩ | ⟨_, lock⟩
        · exact ⟨x, rfl, paid⟩
        · cases toward.symm.trans lock
      | relock _ _ lock => cases toward.symm.trans lock
    obtain ⟨d, o, hd, owner, read, epoch, limit⟩ := h.accepted x hx
    have unlocker : (⟨s.1.call, s.1.entry, s.1.disk, ⟨.startAction id .unlock releaseMs hold, r⟩⟩ :
        Moment).unlocker P = some x.grant := by
      have asked : Call.request s.1.call s.1.entry = some (x.context, x.command) := s.2.request hx
      simp [Moment.unlocker, Moment.drive, Effect.drive, Moment.grant, Moment.request, hd, owner,
        asked, read, Except.toOption]
    have spends : ∀ e i, owed P (ms ++ [⟨s.1.call, s.1.entry, s.1.disk,
        ⟨.startAction id .unlock releaseMs hold, r⟩⟩]) e i =
        owed P ms e i + (if x.grant.epoch = e ∧ x.grant.credentialId = i then 1 else 0) := by
      intro e i
      rw [owed_append, imported_eq_zero rfl, unlocker]
      simp
    have covered : ∀ i, owed P (ms ++ [⟨s.1.call, s.1.entry, s.1.disk,
        ⟨.startAction id .unlock releaseMs hold, r⟩⟩]) d.epoch i ≤ (d.usesOf i).toNat := by
      intro i
      have before := h.paid d hd i
      rw [spends, epoch]
      simpa [hx, Progress.credit, paid] using before
    refine ⟨?_, ?_, fun x hx => absurd hx (unaccepted x), ?_, ?_⟩
    · intro e i newer
      have older : d.epoch < e := newer d (disk'.trans hd)
      rw [spends, h.future e i fun d' hd' => newer d' (disk'.trans hd'), if_neg]
      rintro ⟨same, _⟩
      exact UInt64.ne_of_lt older (epoch ▸ same)
    · intro d' hd' i
      cases hd.symm.trans (disk'.symm.trans hd')
      rw [credit']
      exact covered i
    · intro m' hm' i starts
      rcases List.mem_append.1 hm' with hm' | hm'
      · exact h.named m' hm' i starts
      · cases List.mem_singleton.1 hm'
        exact ⟨d, x.grant, hd, unlocker, epoch⟩
    · intro g max bound
      by_cases own : g = x.grant
      · subst own
        refine Nat.le_trans (unlocksUnder_le _) ?_
        rw [epoch]
        exact Nat.le_trans (covered _) (UInt32.le_iff_toNat_le.1 (limit paid max bound))
      · rw [unlocksUnder, List.countP_append, List.countP_singleton, unlocker, if_neg]
        · exact h.limited g max bound
        · simpa using Ne.symm own

/-- An answered commit of a change. -/
private theorem commit (h : Counted ms s) {n m : DeviceSnapshot} {s₀ : Abs}
    (disk : s.1.disk = some m) (sound : Sound P f m) (change : Change P f s₀ m n pr ow)
    (submitted : s.1 = s₀.submitted n pr ow) (stored : s'.1.disk = some n)
    (progress : s'.1.progress = s.1.progress ∨ s'.1.progress = pr) :
    Counted (ms ++ [⟨s.1.call, s.1.entry, s.1.disk, ⟨.commit n, r⟩⟩]) s' := by
  have owes : ∀ e i, owed P (ms ++ [⟨s.1.call, s.1.entry, s.1.disk, ⟨.commit n, r⟩⟩]) e i =
      owed P ms e i := by
    intro e i
    rw [owed_append]
    simp [Moment.unlocker, Moment.drive, Effect.drive, Moment.imported, disk]
  have forward := change.advances sound
  have before : s.1.progress = s₀.progress := by rw [submitted]; rfl
  have future : ∀ e i, (∀ d, s'.1.disk = some d → d.epoch < e) → owed P ms e i = 0 := by
    intro e i newer
    refine h.future e i fun d hd => ?_
    cases disk.symm.trans hd
    exact UInt64.lt_of_le_of_lt forward.epoch (newer n stored)
  refine h.extend rfl (fun _ h => (by cases h)) (fun e i newer => (owes e i).trans (future e i newer))
    ?_ ?_
  · intro d hd i
    cases stored.symm.trans hd
    rw [owes]
    have paid := h.paid m disk i
    rcases change.ledger_cases with ⟨ledger, kept⟩ | ⟨x, rfl, fresh, _, acceptance⟩ |
      ⟨rfl, fresh, epoch, uses, _⟩ | ⟨rfl, fresh, newer, _⟩
    · simp only [AuthState.ledger, Prod.mk.injEq, auth_epoch, auth_uses] at ledger
      obtain ⟨_, epoch, uses, _⟩ := ledger
      have credit : s'.1.progress.credit i ≤ s.1.progress.credit i := by
        rcases progress with same | same
        · exact Nat.le_of_eq (by rw [same])
        · rcases kept with kept | ⟨kept, _⟩
          · exact Nat.le_of_eq (by rw [same, kept, before])
          · rw [same, kept]
            exact Nat.zero_le _
      rw [epoch]
      simp only [DeviceSnapshot.usesOf, uses] at paid ⊢
      omega
    · have epoch : n.epoch = m.epoch := congrArg AuthState.epoch acceptance.auth
      have count := acceptance.usesOf i
      have credit : s'.1.progress.credit i ≤ (Progress.accepted x).credit i := by
        rcases progress with same | same
        · rw [same, before, fresh]
          exact Nat.zero_le _
        · exact Nat.le_of_eq (by rw [same])
      rw [epoch]
      omega
    · have credit : s'.1.progress.credit i = 0 := by
        rcases progress with same | same
        · rw [same, before, fresh]
          rfl
        · rw [same]
          rfl
      rw [epoch, credit]
      simp only [DeviceSnapshot.usesOf, uses] at paid ⊢
      omega
    · have credit : s'.1.progress.credit i = 0 := by
        rcases progress with same | same
        · rw [same, before, fresh]
          rfl
        · rw [same]
          rfl
      rw [credit, h.future n.epoch i fun d hd => by cases disk.symm.trans hd; exact newer]
      exact Nat.zero_le _
  · intro x hx
    rw [stored]
    have keeps : s.1.progress = .accepted x → Backed P (some n) x := by
      intro hx
      have backed := h.accepted x hx
      rw [disk] at backed
      rcases change.ledger_cases with ⟨ledger, _⟩ | ⟨_, _, fresh, _⟩ | ⟨_, fresh, _⟩ | ⟨_, fresh, _⟩
      · exact backed.ledger ledger
      all_goals
        rw [before, fresh] at hx
        cases hx
    rcases progress with same | same
    · exact keeps (same ▸ hx)
    · rcases change.ledger_cases with ⟨_, kept | ⟨kept, _⟩⟩ | ⟨y, accepted, _, _, acceptance⟩ |
        ⟨settled, _⟩ | ⟨settled, _⟩
      · exact keeps (before.trans (kept.symm.trans (same.symm.trans hx)))
      · cases kept.symm.trans (same.symm.trans hx)
      · cases accepted.symm.trans (same.symm.trans hx)
        exact acceptance.backed
      · cases settled.symm.trans (same.symm.trans hx)
      · cases settled.symm.trans (same.symm.trans hx)

/-- The first commit of a new store. -/
private theorem install (h : Counted ms s) {n : DeviceSnapshot} (blank : s.1.disk = none)
    (installs : s.1.call.installs f = some n) (stored : s'.1.disk = some n)
    (after : storage.after none ⟨.commit n, r⟩ = some n) (progress : s'.1.progress = s.1.progress) :
    Counted (ms ++ [⟨s.1.call, s.1.entry, s.1.disk, ⟨.commit n, r⟩⟩]) s' := by
  have nothing : ∀ e i, owed P ms e i = 0 := fun e i =>
    h.future e i fun d hd => by rw [blank] at hd; cases hd
  have unaccepted : ∀ x, s.1.progress ≠ .accepted x := by
    intro x hx
    obtain ⟨d, _, hd, _⟩ := h.accepted x hx
    rw [blank] at hd
    cases hd
  have credit : ∀ i, s'.1.progress.credit i = 0 := by
    intro i
    rw [progress]
    cases hp : s.1.progress with
    | accepted x => exact absurd hp (unaccepted x)
    | _ => rfl
  have imports : ∀ e i, (⟨s.1.call, s.1.entry, s.1.disk, ⟨.commit n, r⟩⟩ : Moment).imported e i =
      if n.epoch = e then (n.usesOf i).toNat else 0 := by
    intro e i
    rw [Moment.imported, blank, after]
    generalize s.1.call = call at installs
    match call, installs with
    | .construct .provision, rfl => simp [DeviceSnapshot.factory, DeviceSnapshot.usesOf]
    | .construct (.migrateLegacy _ _ _), rfl => rfl
  have owes : ∀ e i, owed P (ms ++ [⟨s.1.call, s.1.entry, s.1.disk, ⟨.commit n, r⟩⟩]) e i =
      if n.epoch = e then (n.usesOf i).toNat else 0 := by
    intro e i
    rw [owed_append, nothing, imports]
    simp [Moment.unlocker, Moment.drive, Effect.drive]
  refine h.extend rfl (fun _ h => (by cases h)) ?_ ?_ fun x hx => absurd (progress ▸ hx) (unaccepted x)
  · intro e i newer
    rw [owes, if_neg (UInt64.ne_of_lt (newer n stored))]
  · intro d hd i
    cases stored.symm.trans hd
    rw [owes, if_pos rfl, credit]
    exact Nat.le_refl _

theorem step (h : Counted ms s) (hs : s.1.Step P f ev s'.1) :
    Counted (ms ++ [⟨s.1.call, s.1.entry, s.1.disk, ev⟩]) s' := by
  have moves := s.2.moves hs
  generalize ht : s'.1 = t at moves
  cases moves with
  | start id target releaseMs hold r a m reading _ _ _ _ _ _ armed same toward =>
    exact h.start armed toward ht
  | commit n r s₀ m pr ow _ _ disk sound change submitted =>
    cases r with
    | ok =>
      exact h.commit disk sound change submitted (by rw [ht]; rfl) (.inr (by rw [ht]; rfl))
    | written =>
      exact h.commit disk sound change submitted (by rw [ht]; rfl) (.inl (by rw [ht]; rfl))
    | lost => exact h.other hs rfl (by rw [ht]; rfl) (by rw [ht]; rfl)
  | install n r blank installs =>
    cases r with
    | ok | written => exact h.install blank installs (by rw [ht]; rfl) rfl (by rw [ht]; rfl)
    | lost => exact h.other hs rfl (by rw [ht]; rfl) (by rw [ht]; rfl)
  | other _ _ drive _ disk progress =>
    exact h.other hs drive (by rw [ht]; exact disk) (by rw [ht]; exact progress)

theorem inductively : Run.Inductive (Counted : List Moment → Lock P f → Prop) :=
  ⟨.blank, fun _ _ call entry h => h.enter call entry, fun _ _ _ _ h hs => h.step hs⟩

end Counted

/-- Only the acceptance of a paid unlock counts a use, within the limit of its grant. -/
theorem Change.uses_grow {s : Abs} (h : Change P f s m n pr ow) (epoch : n.epoch = m.epoch)
    {id : CredentialId} (grew : m.usesOf id < n.usesOf id) :
    ∃ x : Accepted, s.request = some (x.context, x.command) ∧ x.command.action = .unlock
      ∧ checkGrant P m x.context x.command = .ok x.grant ∧ x.grant.credentialId = id
      ∧ (n.usesOf id).toNat = (m.usesOf id).toNat + 1
      ∧ ∀ max, x.grant.maxUses = some max → n.usesOf id ≤ max := by
  have still : n.uses = m.uses → False := by
    intro uses
    simp only [DeviceSnapshot.usesOf, uses] at grew
    exact UInt32.lt_irrefl _ grew
  rcases h.ledger_cases with ⟨ledger, _⟩ | ⟨x, _, _, request, acceptance⟩ | ⟨_, _, _, uses, _⟩ |
    ⟨_, _, newer, _⟩
  · simp only [AuthState.ledger, Prod.mk.injEq, auth_uses] at ledger
    exact (still ledger.2.2.1).elim
  · have count := acceptance.usesOf id
    rw [UInt32.lt_iff_toNat_lt] at grew
    simp only [Progress.credit] at count
    split at count
    · rename_i own
      obtain ⟨paid, rfl⟩ := own
      obtain ⟨unlock, allowed⟩ := acceptance.reserved paid
      refine ⟨x, request, unlock, acceptance.authorized.grant, rfl, count, fun max bound => ?_⟩
      have below := allowed.limit max bound
      rw [UInt32.lt_iff_toNat_lt] at below
      rw [UInt32.le_iff_toNat_le]
      omega
    · omega
  · exact (still uses).elim
  · rw [epoch] at newer
    exact absurd newer (UInt64.lt_irrefl _)

/-- Unlock uses over a whole run. Within an epoch bindings stay and counters never fall;
at every point the durable counter covers the unlock drives started for a credential in
the current epoch and the uses a migration imported for it; every unlock drive is counted
under the grant of its request; a commit that raises a counter accepts an unlock and stays
within the grant's limit; and so a limited grant never causes more unlock drives. -/
theorem unlock_uses_bounded (run : Run P f) :
    (∀ pre mid post, run.moments = pre ++ mid ++ post → ∀ a b, storeAfter pre = some a →
      storeAfter (pre ++ mid) = some b → b.epoch = a.epoch → ∀ id : CredentialId,
        (∀ hash, a.bindings[id]? = some hash → b.bindings[id]? = some hash)
        ∧ a.usesOf id ≤ b.usesOf id)
    ∧ (∀ pre post, run.moments = pre ++ post → ∀ d, storeAfter pre = some d → ∀ id,
      unlocks P pre d.epoch id + imported pre d.epoch id ≤ (d.usesOf id).toNat)
    ∧ (∀ m ∈ run.moments, ∀ id, m.drive = some (id, .unlock) →
      ∃ d g, m.disk = some d ∧ m.unlocker P = some g ∧ g.epoch = d.epoch)
    ∧ (∀ pre m post n r, run.moments = pre ++ m :: post → m.event = ⟨.commit n, r⟩ →
      ∀ d, storeAfter pre = some d → n.epoch = d.epoch → ∀ id, d.usesOf id < n.usesOf id →
        ∃ context cmd g, m.request = some (context, cmd) ∧ cmd.action = .unlock
          ∧ m.grant P = some g ∧ g.credentialId = id
          ∧ (n.usesOf id).toNat = (d.usesOf id).toNat + 1
          ∧ ∀ max, g.maxUses = some max → n.usesOf id ≤ max)
    ∧ (∀ g max, g.maxUses = some max → unlocksUnder P run.moments g ≤ max.toNat) := by
  obtain ⟨_, _, counted⟩ := run.history Counted.inductively
  refine ⟨?_, ?_, counted.named, ?_, counted.limited⟩
  · intro pre mid post split a b ha hb epoch id
    obtain ⟨_, hb', forward⟩ := run.advances split ha
    cases hb.symm.trans hb'
    exact ⟨forward.binding epoch id, forward.uses epoch id⟩
  · intro pre post split d hd id
    obtain ⟨s, forward, counted⟩ :=
      run.along (Forward.inductively.and Counted.inductively) split
    have paid := counted.paid d (forward.disk.trans hd) id
    rw [owed] at paid
    omega
  · intro pre m post n r split event d hd epoch id grew
    obtain ⟨s, s', forward, hs, hm⟩ := run.moment Forward.inductively split
    have disk : s.1.disk = some d := forward.disk.trans hd
    have moves := s.2.moves hs
    rw [event] at moves
    generalize s'.1 = t at moves
    cases moves with
    | commit _ _ s₀ m₀ pr ow _ _ disk' sound change submitted =>
      cases disk.symm.trans disk'
      obtain ⟨x, request, unlock, grant, own, count, limit⟩ := change.uses_grow epoch grew
      obtain ⟨o, granted⟩ := checkGrant_ok.1 grant
      have asked : Call.request s.1.call s.1.entry = some (x.context, x.command) := by
        rw [submitted]
        exact request
      refine ⟨x.context, x.command, x.grant, by rw [hm]; exact asked, unlock, ?_, own, count, limit⟩
      rw [hm]
      simp [Moment.grant, Moment.request, disk, granted.owner, asked, granted.read,
        Except.toOption]
    | install _ _ blank =>
      rw [disk] at blank
      cases blank
    | other _ _ _ durable => exact absurd rfl (durable n)

end OpenLock
