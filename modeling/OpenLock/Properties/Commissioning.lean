import OpenLock.Device.Scripted
import OpenLock.Properties.Confirmation
import OpenLock.Properties.Ownership
import OpenLock.Refinement.Commissioning

/-! Commissioning: a pairing gesture allows five guesses of the setup key, an owner is occupied
only in the two minutes after one, and the pairing status tells when. -/
namespace OpenLock
open Controller Effects

variable {P : Primitives} {f : FactoryIdentity} {context : SessionContext} {cmd : Command}
  {pre post : List (Record P f)} {admin : Bytes} {out : Output} {q : Moment}

section Counting
variable {α : Type} {k j : Nat} {p : α → Prop} {l : List α}

/-- No more than `k` elements of the list satisfy the predicate. -/
def AtMost (k : Nat) (p : α → Prop) (l : List α) : Prop :=
  ∀ xs : List α, xs.Sublist l → (∀ x ∈ xs, p x) → xs.length ≤ k

theorem AtMost.nil : AtMost k p [] := by
  intro xs sub _
  rw [List.sublist_nil.1 sub]
  exact Nat.zero_le k

theorem AtMost.mono (h : AtMost k p l) (more : k ≤ j) : AtMost j p l :=
  fun xs sub all => Nat.le_trans (h xs sub all) more

/-- One more element, which counts only if the bound grows. -/
theorem AtMost.snoc {x : α} (h : AtMost k p l) (more : k ≤ j) (counts : p x → k < j) :
    AtMost j p (l ++ [x]) := by
  intro xs sub all
  obtain ⟨old, new, rfl, subOld, subNew⟩ := List.sublist_append_iff.1 sub
  have few := h old subOld fun y hy => all y (List.mem_append_left _ hy)
  rw [List.length_append]
  cases new with
  | nil => exact Nat.le_trans few more
  | cons y rest =>
    have single : (y :: rest).length ≤ 1 := subNew.length_le
    have same : y = x := List.mem_singleton.1 (subNew.subset List.mem_cons_self)
    have holds : p x := same ▸ all y (List.mem_append_right _ List.mem_cons_self)
    have grows := counts holds
    omega

end Counting

/-- A pairing gesture that succeeded. -/
def Gesture (r : Record P f) : Prop :=
  r.call = .method .openPairingWindow ∧ ∃ out, r.output = some out ∧ out.failed = false

/-- The call is a claim. -/
def Record.Claims (r : Record P f) (context : SessionContext) (cmd : Command)
    (key issuer : Bytes32) (admin : Bytes) : Prop :=
  r.call.request r.before.controller = some (context, cmd)
    ∧ cmd.action = .claim key issuer admin

/-- A claim that is answered that its setup key is wrong. -/
def FoundWrong (r : Record P f) : Prop :=
  (∃ context cmd key issuer admin, r.Claims context cmd key issuer admin)
    ∧ ∃ y, r.output = some (.response y) ∧ y.result = .error Error.invalidSetupKey.code

/-- A claim whose setup key was compared and found wrong: it was answered so, or the power
went just before that answer. -/
def Guessed (r : Record P f) : Prop :=
  FoundWrong r ∨ r.output = none
    ∧ ∃ q : Record P f, q.before = r.before ∧ q.call = r.call ∧ q.trace = r.trace ∧ FoundWrong q

/-- How many wrong keys the controller will still compare without another gesture. -/
def Controller.guesses (c : Controller) : Nat :=
  if c.pairingUntil.isSome then 5 - c.pairingFailures.toNat else 0

def Device.guesses (d : Device) : Nat := (d.controller.map Controller.guesses).getD 0

section Budget
variable {r : Record P f} {s : Lock P f} {c c' : Controller} {context : SessionContext}
  {cmd : Command} {key issuer : Bytes32} {admin : Bytes} {d : Device}

theorem Device.guesses_eq (found : d.controller = some c) : d.guesses = c.guesses := by
  rw [Device.guesses, found]
  rfl

theorem Device.guesses_none (none : d.controller = none) : d.guesses = 0 := by
  rw [Device.guesses, none]
  rfl

theorem Controller.guesses_closed (shut : c.pairingUntil = none) : c.guesses = 0 := by
  rw [Controller.guesses, shut]
  rfl

theorem Device.guesses_le (d : Device) : d.guesses ≤ 5 := by
  cases found : d.controller with
  | none => rw [Device.guesses_none found]; omega
  | some c =>
    rw [Device.guesses_eq found, Controller.guesses]
    split <;> omega

/-- A reboot closes the window. -/
theorem Record.closed (r : Record P f) (constructs : r.call.constructs = true)
    (left : r.after.controller = some c') : c'.pairingUntil = none := by
  obtain ⟨before, call, trace, output, after, performed⟩ := r
  cases performed with
  | construct exec =>
    obtain ⟨x, hx, same⟩ := Option.bind_eq_some_iff.1 left
    cases x with
    | error => cases same
    | ok y =>
      cases same
      exact (((constructor_rebooted _ _).exec exec).2 _ hx _ rfl).2
  | method => cases constructs

/-- What a method other than the gesture does to the window. -/
inductive Keeping (r : Record P f) (c c' : Controller) : Prop
  | wrong (guessed : FoundWrong r) (few : c.pairingFailures < 5)
      (failures : c'.pairingFailures = c.pairingFailures + 1)
      (shuts : c'.pairingUntil = if c'.pairingFailures ≥ 5 then none else c.pairingUntil)
      (owner : c'.state.owner = c.state.owner)
  | closed (shuts : c'.pairingUntil = none)
  | kept (quiet : ¬ FoundWrong r) (opened : c'.pairingUntil = c.pairingUntil)
      (failures : c'.pairingFailures = c.pairingFailures)
      (owner : (∃ context cmd key issuer admin, r.Claims context cmd key issuer admin) →
        c'.state.owner = c.state.owner)

/-- What the answer of a claim says about the window it found. -/
theorem Tracks.keeping_claim (tracks : Tracks r.before s) (found : r.before.controller = some c)
    (left : r.after.controller = some c') (claims : r.Claims context cmd key issuer admin) :
    Keeping r c c' := by
  obtain ⟨asked, action⟩ := claims
  rw [found] at asked
  obtain ⟨out, returned⟩ := r.output_isSome left
  obtain ⟨y, c'', rfl, left', tried⟩ := tracks.tried found asked action returned
  cases left.symm.trans left'
  have claims : r.Claims context cmd key issuer admin := ⟨by rw [found]; exact asked, action⟩
  generalize result : y.result = answer at tried
  cases tried with
  | wrong _ window _ failures shuts owner =>
    obtain ⟨_, _, _, few⟩ := windowClosed_eq_false window
    exact .wrong ⟨⟨context, cmd, key, issuer, admin, claims⟩, y, returned, result⟩ few failures
      shuts owner
  | claimed _ _ _ shuts => exact .closed shuts
  | declined other gates owner =>
    refine .kept ?_ (congrArg (·.1) gates) (congrArg (·.2.1) gates) fun _ => owner
    rintro ⟨_, y', answered, wrong⟩
    cases returned.symm.trans answered
    exact other (Except.error.inj (result.symm.trans wrong))

theorem Tracks.keeping (tracks : Tracks r.before s) (method : r.call.constructs = false)
    (other : ¬ Gesture r) (found : r.before.controller = some c)
    (left : r.after.controller = some c') : Keeping r c c' := by
  by_cases claims : ∃ context cmd key issuer admin, r.Claims context cmd key issuer admin
  · obtain ⟨_, _, _, _, _, claims⟩ := claims
    exact tracks.keeping_claim found left claims
  · have quiet : ¬ FoundWrong r := fun wrong => claims wrong.1
    have unclaimed : ∀ {p : Prop},
        (∃ context cmd key issuer admin, r.Claims context cmd key issuer admin) → p :=
      fun h => absurd h claims
    obtain ⟨m, call⟩ := Call.exists_method method
    by_cases gesture : m = .openPairingWindow
    · subst gesture
      obtain ⟨out, returned⟩ := r.output_isSome left
      obtain ⟨c'', _, left', _, ⟨ok, _⟩ | ⟨_, gates, _⟩⟩ := tracks.gestured call found returned
      · exact absurd ⟨call, out, returned, ok⟩ other
      · cases left.symm.trans left'
        exact .kept quiet (congrArg (·.1) gates) (congrArg (·.2.1) gates) unclaimed
    · have narrows : Narrows c c' := by
        have claims := claims
        obtain ⟨before, k, trace, output, after, performed⟩ := r
        cases call
        cases performed with
        | method controller exec =>
          cases controller.symm.trans found
          obtain ⟨y, hy, rfl⟩ := Option.map_eq_some_iff.1 left
          refine ((method_narrows m gesture c ?_).exec exec).2 y hy
          intro context cmd asked key issuer admin action
          exact claims ⟨context, cmd, key, issuer, admin, by rw [found]; exact asked, action⟩
      rcases narrows with shut | ⟨opened, failures⟩
      · exact .closed shut
      · exact .kept quiet opened failures unclaimed

/-- A key is only compared while the window is open. -/
theorem Tracks.guessable (tracks : Tracks r.before s) (wrong : FoundWrong r) :
    0 < r.before.guesses := by
  obtain ⟨⟨context, cmd, key, issuer, admin, asked, action⟩, y, returned, result⟩ := wrong
  obtain ⟨c, found⟩ := r.controller (Call.request_method asked)
  rw [found] at asked
  obtain ⟨_, _, ⟨⟩, _, tried⟩ := tracks.tried found asked action returned
  rw [result] at tried
  cases tried with
  | wrong _ window =>
    obtain ⟨_, opened, _, few⟩ := windowClosed_eq_false window
    have few : c.pairingFailures.toNat < 5 := UInt8.lt_iff_toNat_lt.1 few
    rw [Device.guesses_eq found, Controller.guesses, opened]
    exact Nat.sub_pos_of_lt few
  | declined other => exact absurd rfl other

theorem failures_succ {n k : UInt8} (few : n < 5) (succ : k = n + 1) : k.toNat = n.toNat + 1 := by
  have few : n.toNat < 5 := UInt8.lt_iff_toNat_lt.1 few
  have one : (1 : UInt8).toNat = 1 := rfl
  rw [succ, UInt8.toNat_add, one]
  exact Nat.mod_eq_of_lt (by omega)

/-- Without a gesture the guesses left never grow, and a wrong key takes one. -/
theorem Keeping.guesses (h : Keeping r c c') :
    c'.guesses ≤ c.guesses ∧ (FoundWrong r → c'.guesses ≤ c.guesses - 1) := by
  cases h with
  | wrong _ few failures shuts =>
    suffices one : c'.guesses ≤ c.guesses - 1 from ⟨by omega, fun _ => one⟩
    have counted := failures_succ few failures
    split at shuts
    · rw [Controller.guesses_closed shuts]
      exact Nat.zero_le _
    · rw [Controller.guesses, Controller.guesses, shuts, counted]
      split <;> omega
  | closed shuts =>
    rw [Controller.guesses_closed shuts]
    exact ⟨Nat.zero_le _, fun _ => Nat.zero_le _⟩
  | kept quiet opened failures =>
    rw [Controller.guesses, Controller.guesses, opened, failures]
    exact ⟨Nat.le_refl _, fun wrong => absurd wrong quiet⟩

theorem Tracks.guesses (tracks : Tracks r.before s) (other : ¬ Gesture r) :
    r.after.guesses ≤ r.before.guesses ∧ (Guessed r → r.after.guesses < r.before.guesses) := by
  have guessable : Guessed r → 0 < r.before.guesses := by
    rintro (wrong | ⟨_, q, before, _, _, wrong⟩)
    · exact tracks.guessable wrong
    · rw [← before] at tracks ⊢
      exact tracks.guessable wrong
  cases left : r.after.controller with
  | none =>
    rw [Device.guesses_none left]
    exact ⟨Nat.zero_le _, guessable⟩
  | some c' =>
    rw [Device.guesses_eq left]
    cases constructs : r.call.constructs with
    | true =>
      rw [Controller.guesses_closed (r.closed constructs left)]
      exact ⟨Nat.zero_le _, guessable⟩
    | false =>
      obtain ⟨c, found⟩ := r.controller constructs
      obtain ⟨le, less⟩ := (tracks.keeping constructs other found left).guesses
      rw [Device.guesses_eq found] at guessable ⊢
      refine ⟨le, fun guessed => ?_⟩
      have some := guessable guessed
      rcases guessed with wrong | ⟨cut, _⟩
      · have fewer := less wrong
        omega
      · obtain ⟨_, returned⟩ := r.output_isSome left
        cases returned.symm.trans cut

/-- The wrong keys since any point without a gesture, and the guesses left, are five at most. -/
theorem Run.guesses_left (run : Run P f) {pre mid : List (Record P f)}
    (split : run.records = pre ++ mid) (calm : ∀ r ∈ mid, ¬ Gesture r) :
    AtMost (5 - run.final.guesses) Guessed mid := by
  refine run.calls (motive := fun rs d => ∀ pre mid, rs = pre ++ mid → (∀ r ∈ mid, ¬ Gesture r) →
    AtMost (5 - d.guesses) Guessed mid) ?_ ?_ pre mid split calm
  · intro pre mid none _
    rw [(List.append_eq_nil_iff.1 none.symm).2]
    exact .nil
  · intro rs r s s' follows earlier pre mid split calm
    rcases List.eq_nil_or_concat mid with rfl | ⟨mid, last, rfl⟩
    · exact .nil
    · rw [List.concat_eq_append] at split calm ⊢
      obtain ⟨rfl, same⟩ := List.append_inj' (split.trans (List.append_assoc ..).symm) rfl
      cases same
      have other := calm r (List.mem_append_right _ List.mem_cons_self)
      obtain ⟨le, less⟩ := follows.before.guesses other
      have most := r.before.guesses_le
      refine (earlier pre mid rfl fun q hq => calm q (List.mem_append_left _ hq)).snoc ?_ ?_
      · omega
      · intro guessed
        have fewer := less guessed
        omega

/-- Between gestures at most five keys are compared and found wrong. -/
theorem Run.guesses_le (run : Run P f) {pre mid post : List (Record P f)}
    (split : run.records = pre ++ mid ++ post) (calm : ∀ r ∈ mid, ¬ Gesture r) :
    AtMost 5 Guessed mid := by
  have bounded : ∃ earlier : Run P f, earlier.records = pre ++ mid := by
    cases post with
    | nil => exact ⟨run, by simpa using split⟩
    | cons r rest =>
      obtain ⟨earlier, records, _⟩ := run.upTo split
      exact ⟨earlier, records⟩
  obtain ⟨earlier, records⟩ := bounded
  intro xs sub all
  exact Nat.le_trans (earlier.guesses_left records calm xs sub all) (Nat.sub_le ..)

end Budget

/-- The effect gives the ownerless device an owner. -/
def Moment.TakesOwnership (q : Moment) : Prop :=
  ∃ a n, q.disk = some a ∧ q.Stores n ∧ a.owner = none ∧ n.owner ≠ none

section Vacancy
variable {r : Record P f} {s s' : Lock P f} {c c' : Controller} {tr : List (Event Answer)}
  {ev : Event Answer}

/-- The call is a claim that has failed at the store or has given the device an owner. -/
def Occupied (r : Record P f) (tr : List (Event Answer)) (s : Abs) : Prop :=
  (∃ context cmd key issuer admin, r.Claims context cmd key issuer admin)
    ∧ (s.poisoned = true ∨ s.progress = .settled ∧ (∃ m, s.mem = some m ∧ m.owner ≠ none)
      ∧ ∃ q ∈ momentsFrom r.call r.before.controller r.before.disk tr, q.TakesOwnership)

/-- A call on an ownerless controller, which has no owner still or has been occupied. -/
structure Vacant (r : Record P f) (tr : List (Event Answer)) (s : Lock P f) : Prop where
  method : s.1.call.constructs = false
  request : s.1.request = r.call.request r.before.controller
  stored : s.1.disk = storage.afterAll r.before.disk tr
  outcome : (∃ m, s.1.mem = some m ∧ m.owner = none) ∨ Occupied r tr s.1

theorem mem_momentsFrom_append {call : Call} {entry : Option Controller}
    {disk : Option DeviceSnapshot} {more : List (Event Answer)}
    (h : q ∈ momentsFrom call entry disk tr) : q ∈ momentsFrom call entry disk (tr ++ more) := by
  obtain ⟨pre, ev, post, rfl, rfl⟩ := mem_momentsFrom.1 h
  exact mem_momentsFrom.2 ⟨pre, ev, post ++ more, by simp, rfl⟩

theorem Change.unrenewed {s : Abs} {m n : DeviceSnapshot} {pr : Progress} {ow : Option Active}
    (h : Change P f s m n pr ow) (settled : s.progress = .settled) : ¬ Renewed m n := by
  intro renewed
  rcases h.ledger_cases with ⟨same, _⟩ | ⟨_, _, fresh, _⟩ | ⟨_, fresh, _⟩ | ⟨_, fresh, _⟩
  · exact renewed.of_ledger same
  all_goals cases settled.symm.trans fresh

/-- What has been occupied stays so. -/
theorem Occupied.step (h : Occupied r tr s.1) (method : s.1.call.constructs = false)
    (hs : s.1.Step P f ev s'.1) : Occupied r (tr ++ [ev]) s'.1 := by
  obtain ⟨claims, dead | ⟨settled, ⟨m, hm, owned⟩, q, hq, takes⟩⟩ := h
  · obtain ⟨x, _, stopped⟩ := hs.of_poisoned dead
    rw [stopped]
    exact ⟨claims, .inl (Abs.poisoned_stop _ x dead)⟩
  · have settled' := s.2.settled hs settled
    refine ⟨claims, ?_⟩
    suffices s'.1.poisoned = true ∨ ∃ m, s'.1.mem = some m ∧ m.owner ≠ none from
      this.imp_right fun owned => ⟨settled', owned, q, mem_momentsFrom_append hq, takes⟩
    have moves := s.2.moves hs
    generalize s'.1 = t at moves
    cases moves with
    | start => exact .inr ⟨m, hm, owned⟩
    | install _ _ _ installs =>
      rw [Call.installs_constructs installs] at method
      cases method
    | other _ _ _ _ _ _ mem => exact .inr ⟨m, (mem method).trans hm, owned⟩
    | commit n x s₀ m' pr ow _ hm' _ _ change submitted =>
      have mem : s.1.mem = some m' := by rw [submitted]; exact hm'
      cases hm.symm.trans mem
      cases x with
      | lost | written => exact .inl rfl
      | ok =>
        have before : s₀.progress = .settled := by rw [← settled, submitted]; rfl
        have same := change.unrenewed before
        simp only [Renewed, not_or, not_not] at same
        exact .inr ⟨n, rfl, same.1 ▸ owned⟩

/-- A commit that moves an ownerless device takes it. -/
theorem Vacant.renews (h : Vacant r tr s) {n a : DeviceSnapshot} {x : CommitAnswer}
    (hs : s.1.Step P f ⟨.commit n, x⟩ s'.1) (disk : s.1.disk = some a) (renewed : Renewed a n) :
    Occupied r (tr ++ [⟨.commit n, x⟩]) s'.1 := by
  rcases h.outcome with ⟨m, hm, ownerless⟩ | occupied
  · have moves := s.2.moves hs
    generalize s'.1 = t at moves
    cases moves with
    | install _ _ _ installs =>
      have method := h.method
      rw [Call.installs_constructs installs] at method
      cases method
    | other _ _ _ durable => exact absurd rfl (durable n)
    | commit _ _ s₀ m' pr ow _ hm' disk' _ change submitted =>
      have mem : s.1.mem = some m' := by rw [submitted]; exact hm'
      cases hm.symm.trans mem
      cases disk.symm.trans disk'
      obtain ⟨rfl, _, _, _, context, cmd, key, issuer, admin, _, asked, _, _, claiming⟩ :=
        change.claims ownerless renewed
      have request : s.1.request = some (context, cmd) := by rw [submitted]; exact asked
      have owner : n.owner = some ⟨issuer, context.peer⟩ := congrArg AuthState.owner claiming.auth
      refine ⟨⟨context, cmd, key, issuer, admin, h.request.symm.trans request, claiming.action⟩, ?_⟩
      cases x with
      | lost | written => exact .inl rfl
      | ok =>
        have owned : n.owner ≠ none := by rw [owner]; exact Option.some_ne_none _
        refine .inr ⟨rfl, ⟨n, rfl, owned⟩, ⟨r.call, r.before.controller, some a, ⟨.commit n, .ok⟩⟩,
          mem_momentsFrom.2 ⟨tr, _, [], rfl, by rw [← h.stored, disk]⟩, a, n, rfl,
          ⟨.ok, rfl, fun _ h => by cases h⟩, ownerless, owned⟩
  · exact occupied.step h.method hs

theorem Vacant.step (h : Vacant r tr s) (hs : s.1.Step P f ev s'.1) : Vacant r (tr ++ [ev]) s' := by
  have frame := Frame.step hs
  refine ⟨by rw [frame.call]; exact h.method, frame.request.trans h.request, ?_, ?_⟩
  · rw [World.afterAll, List.foldl_append]
    exact (Abs.step_disk hs).trans (congrArg (storage.after · ev) h.stored)
  · rcases h.outcome with ⟨m, hm, ownerless⟩ | occupied
    · have renews := @Vacant.renews _ _ _ _ s' _ h
      have moves := s.2.moves hs
      generalize s'.1 = t at hs moves renews
      cases moves with
      | start => exact .inl ⟨m, hm, ownerless⟩
      | install _ _ _ installs =>
        have method := h.method
        rw [Call.installs_constructs installs] at method
        cases method
      | other _ _ _ _ _ _ mem => exact .inl ⟨m, (mem h.method).trans hm, ownerless⟩
      | commit n x s₀ m' pr ow _ hm' disk _ change submitted =>
        have mem : s.1.mem = some m' := by rw [submitted]; exact hm'
        cases hm.symm.trans mem
        by_cases renewed : Renewed m n
        · exact .inr (renews hs disk renewed)
        · simp only [Renewed, not_or, not_not] at renewed
          cases x with
          | lost | written => exact .inl ⟨m, mem, ownerless⟩
          | ok => exact .inl ⟨n, rfl, renewed.1.trans ownerless⟩
    · exact .inr (occupied.step h.method hs)

theorem Follows.vacant (follows : Follows r s s') (found : r.before.controller = some c)
    (method : r.call.constructs = false) (ownerless : c.state.owner = none)
    {pre : List (Event Answer)} {t : Lock P f}
    (path : Path (lockSpec P f) (s.enter r.call r.before.controller) pre t) : Vacant r pre t := by
  refine Follows.along (fun _ _ _ _ h hs => h.step hs) ?_ path
  exact ⟨method, rfl, follows.before.disk, .inl ⟨c.state, (follows.coupled found method).mem,
    ownerless⟩⟩

/-- A controller that has got an owner in a call has got it by a claim that stored one. -/
theorem Follows.occupied (follows : Follows r s s') (found : r.before.controller = some c)
    (method : r.call.constructs = false) (ownerless : c.state.owner = none)
    (left : r.after.controller = some c') (live : c'.poisoned = false)
    (owned : c'.state.owner ≠ none) :
    (∃ context cmd key issuer admin, r.Claims context cmd key issuer admin)
      ∧ ∃ q ∈ r.moments, q.TakesOwnership := by
  have coupled := follows.after.controller c' left
  rcases (follows.vacant found method ownerless follows.path).outcome with
    ⟨m, hm, none⟩ | ⟨claims, dead | ⟨_, _, takes⟩⟩
  · cases hm.symm.trans coupled.mem
    exact absurd none owned
  · cases live.symm.trans (coupled.poisoned.symm.trans dead)
  · exact ⟨claims, takes⟩

/-- A call that leaves a live controller without an owner has moved the device nowhere. -/
theorem Follows.unrenewed (follows : Follows r s s') (found : r.before.controller = some c)
    (method : r.call.constructs = false) (ownerless : c.state.owner = none)
    (left : r.after.controller = some c') (live : c'.poisoned = false)
    (still : c'.state.owner = none) :
    ∀ q ∈ r.moments, ∀ a n, q.disk = some a → q.Stores n → ¬ Renewed a n := by
  rintro q hq a n disk ⟨x, event, _⟩ renewed
  obtain ⟨pre, ev, post, split, rfl⟩ := mem_momentsFrom.1 hq
  cases event
  obtain ⟨t, t', before, hs, rest, _, _, stored⟩ := follows.effect split
  have vacant := follows.vacant found method ownerless before
  have occupied := vacant.renews hs (stored.trans disk) renewed
  have whole : s'.1.call.constructs = false ∧ ∃ tr, Occupied r tr s'.1 := by
    refine rest.invariant (I := fun u => u.1.call.constructs = false ∧ ∃ tr, Occupied r tr u.1) ?_
      ⟨(vacant.step hs).method, _, occupied⟩
    rintro u ev u' hs ⟨method, tr, occupied⟩
    exact ⟨by rw [(Frame.step hs).call]; exact method, _, occupied.step method hs⟩
  have coupled := follows.after.controller c' left
  obtain ⟨_, _, _, dead | ⟨_, ⟨m, hm, owned⟩, _⟩⟩ := whole
  · cases live.symm.trans (coupled.poisoned.symm.trans dead)
  · cases hm.symm.trans coupled.mem
    exact owned still

end Vacancy

/-- A call of the same boot that neither repeats the gesture nor gives the device another
owner or epoch. -/
structure Waits (r : Record P f) : Prop where
  method : r.call.constructs = false
  other : ¬ Gesture r
  kept : ∀ q ∈ r.moments, ∀ a n, q.disk = some a → q.Stores n → ¬ Renewed a n

/-- The gesture that opened a window, at the time `t`, and the calls since. -/
structure Since (rs : List (Record P f)) (g : Record P f) (later : List (Record P f)) (t : UInt64) :
    Prop where
  split : ∃ before, rs = before ++ g :: later
  gesture : Gesture g
  read : (⟨.monotonicMs, t⟩ : Event Answer) ∈ g.trace
  waits : ∀ r ∈ later, Waits r

/-- What an open window says about the calls before: it goes back to a gesture of this boot,
and the wrong keys since have been counted. -/
structure Paired (rs : List (Record P f)) (c : Controller) (until_ : UInt64) : Prop where
  ownerless : c.state.owner = none
  few : c.pairingFailures < 5
  since : ∃ g later t, Since rs g later t ∧ until_.toNat = t.toNat + 120000 ∧ t ≤ c.lastMono
    ∧ AtMost c.pairingFailures.toNat Guessed later

section Windows
variable {r : Record P f} {rs : List (Record P f)} {s s' : Lock P f} {c c' : Controller}
  {until_ : UInt64}

theorem WindowOpened.paired {times : List UInt64} (h : WindowOpened c times) (gesture : Gesture r)
    (read : (⟨.monotonicMs, c.lastMono⟩ : Event Answer) ∈ r.trace)
    (window : c.pairingUntil = some until_) : Paired (rs ++ [r]) c until_ := by
  refine ⟨h.ownerless, by rw [h.failures]; decide, r, [], c.lastMono,
    ⟨⟨rs, rfl⟩, gesture, read, fun _ h => by cases h⟩, ?_, UInt64.le_refl _, .nil⟩
  have range := h.range
  obtain rfl : c.lastMono + 120000 = until_ := Option.some.inj (h.window.symm.trans window)
  rw [UInt64.toNat_add]
  exact Nat.mod_eq_of_lt range

/-- A call that leaves the window open adds to the calls since its gesture. -/
theorem Paired.waits (h : Paired rs c until_) (waits : Waits r) (later : c.lastMono ≤ c'.lastMono)
    (ownerless : c'.state.owner = none) (few : c'.pairingFailures < 5)
    (failures : c.pairingFailures.toNat ≤ c'.pairingFailures.toNat)
    (counts : Guessed r → c.pairingFailures.toNat < c'.pairingFailures.toNat) :
    Paired (rs ++ [r]) c' until_ := by
  obtain ⟨g, calls, t, ⟨⟨before, rfl⟩, gesture, read, all⟩, window, upTo, atMost⟩ := h.since
  refine ⟨ownerless, few, g, calls ++ [r], t, ⟨⟨before, by simp⟩, gesture, read, ?_⟩, window,
    UInt64.le_trans upTo later, atMost.snoc failures counts⟩
  intro q hq
  rcases List.mem_append.1 hq with old | new
  · exact all q old
  · cases List.mem_singleton.1 new
    exact waits

/-- Between calls, the open window of a live controller goes back to a gesture. -/
theorem Run.paired (run : Run P f) (found : run.final.controller = some c)
    (live : c.poisoned = false) (window : c.pairingUntil = some until_) :
    Paired run.records c until_ := by
  refine run.calls (motive := fun rs d => ∀ c until_, d.controller = some c → c.poisoned = false →
    c.pairingUntil = some until_ → Paired rs c until_) (fun _ _ h => (by cases h)) ?_ c until_ found
    live window
  intro rs r s s' follows earlier c' until_ left live' window
  cases constructs : r.call.constructs with
  | true => cases (r.closed constructs left).symm.trans window
  | false =>
    obtain ⟨c, found⟩ := r.controller constructs
    obtain ⟨out, returned⟩ := r.output_isSome left
    have live := r.live constructs found left live'
    have later := (follows.later constructs found left live').1
    by_cases gesture : Gesture r
    · obtain ⟨_, _, left', path, ⟨_, opened⟩ | ⟨failed, _⟩⟩ :=
        follows.before.gestured gesture.1 found returned
      · cases left.symm.trans left'
        exact opened.paired gesture ((follows.heeds path).times _ opened.read) window
      · obtain ⟨_, _, returned', ok⟩ := gesture
        cases returned.symm.trans returned'
        cases ok.symm.trans failed
    · cases follows.before.keeping constructs gesture found left with
      | closed shuts => cases shuts.symm.trans window
      | wrong _ few failures shuts owner =>
        have open_ : ¬ c'.pairingFailures ≥ 5 := by
          intro full
          rw [if_pos full] at shuts
          cases shuts.symm.trans window
        rw [if_neg open_] at shuts
        have paired := earlier c until_ found live (shuts.symm.trans window)
        have ownerless := owner.trans paired.ownerless
        have counted := failures_succ few failures
        exact paired.waits ⟨constructs, gesture, follows.unrenewed found constructs paired.ownerless
          left live' ownerless⟩ later ownerless (UInt8.not_le.1 open_) (by omega) fun _ => by omega
      | kept quiet opened failures owner =>
        have paired := earlier c until_ found live (opened.symm.trans window)
        have ownerless : c'.state.owner = none := by
          by_contra owned
          obtain ⟨claims, _⟩ :=
            follows.occupied found constructs paired.ownerless left live' owned
          exact owned ((owner claims).trans paired.ownerless)
        refine paired.waits ⟨constructs, gesture, follows.unrenewed found constructs
          paired.ownerless left live' ownerless⟩ later ownerless (failures ▸ paired.few)
          (by rw [failures]) ?_
        rintro (wrong | ⟨cut, _⟩)
        · exact absurd wrong quiet
        · cases returned.symm.trans cut

/-- The call reads the clock in the two minutes from `t`. -/
def InTime (t : UInt64) (r : Record P f) : Prop :=
  ∃ start now, (readings r.trace).head? = some start ∧ now ∈ readings r.trace
    ∧ t ≤ start ∧ start ≤ now ∧ now.toNat < t.toNat + 120000

/-- A claim is accepted while the window is open at its last reading of the clock. -/
theorem Follows.claimed (follows : Follows r s s') (found : r.before.controller = some c)
    {key issuer : Bytes32} (asked : r.call.request (some c) = some (context, cmd))
    (action : cmd.action = .claim key issuer admin) (window : c.pairingUntil = some until_)
    (returned : r.output = some out) (ok : out.failed = false) :
    ∀ now ∈ readings r.trace, now < until_ := by
  obtain ⟨y, c', rfl, left, tried⟩ := follows.before.tried found asked action returned
  have method := Call.request_method asked
  obtain ⟨m, call⟩ := Call.exists_method method
  have live := ((follows.returned m c _ c' call found returned left).ready ok).live
  obtain ⟨opcode, result⟩ := y
  cases tried with
  | wrong | declined => cases ok
  | claimed _ opened =>
    obtain ⟨_, window', before, _⟩ := windowClosed_eq_false opened
    cases window.symm.trans window'
    intro now read
    exact UInt64.lt_of_le_of_lt ((follows.later method found left live).2 now read) before

/-- An owner is only taken in the window of a gesture. -/
theorem Run.takes_since (run : Run P f) (split : run.records = pre ++ r :: post)
    (hq : q ∈ r.moments) (takes : q.TakesOwnership) :
    ∃ g later t, Since pre g later t ∧ AtMost 4 Guessed later
      ∧ InTime t r ∧ ∀ out, r.output = some out → out.failed = false →
        ∀ now ∈ readings r.trace, now.toNat < t.toNat + 120000 := by
  obtain ⟨earlier, records, final⟩ := run.upTo split
  obtain ⟨s, s', _, follows⟩ := run.call Forward.inductively split
  obtain ⟨a, n, disk, ⟨x, event, _⟩, ownerless, owned⟩ := takes
  obtain ⟨tr, ev, rest, trace, rfl⟩ := mem_momentsFrom.1 hq
  cases event
  obtain ⟨u, u', before, hs, _, call, entry, stored⟩ := follows.effect trace
  have disk : u.1.disk = some a := stored.trans disk
  have moves := u.2.moves hs
  generalize u'.1 = u' at moves
  cases moves with
  | install _ _ empty => cases disk.symm.trans empty
  | other _ _ _ durable => exact absurd rfl (durable n)
  | commit _ _ s₀ m pr ow alive _ disk' _ change submitted =>
    cases disk.symm.trans disk'
    obtain ⟨_, _, c, now, context, cmd, key, issuer, admin, _, asked, entered, read, claiming⟩ :=
      change.claims ownerless (.inl (by rw [ownerless]; exact owned))
    have found : r.before.controller = some c := by
      rw [← entry, submitted]
      exact entered
    have request : r.call.request (some c) = some (context, cmd) := by
      rw [← found, ← call, ← entry, submitted]
      exact asked
    have method := Call.request_method request
    have live : c.poisoned = false := by
      by_contra dead
      have coupled := follows.coupled found method
      have dead := Abs.poisoned_path before (coupled.poisoned.trans (by simpa using dead))
      rw [submitted] at dead
      cases alive.symm.trans dead
    obtain ⟨until_, window, current, few⟩ := windowClosed_eq_false claiming.window
    have paired := earlier.paired (final ▸ found) live window
    rw [records] at paired
    obtain ⟨g, later, t, since, deadline, upTo, atMost⟩ := paired.since
    have few : c.pairingFailures.toNat < 5 := UInt8.lt_iff_toNat_lt.1 few
    have inWindow : ∀ now : UInt64, now < until_ → now.toNat < t.toNat + 120000 :=
      fun now h => deadline ▸ UInt64.lt_iff_toNat_lt.1 h
    refine ⟨g, later, t, since, atMost.mono (by omega), ?_, fun out returned ok now hnow =>
      inWindow now (follows.claimed found request claiming.action window returned ok now hnow)⟩
    have alive : u.1.poisoned = false := by rw [submitted]; exact alive
    have read : now ∈ readings tr :=
      mem_readings.2 ((follows.heeds before).times now (by rw [submitted]; exact read))
    obtain ⟨start, first, after, order⟩ :=
      exists_start ((follows.timed found method before).ordered alive).1 read
    have grows : readings r.trace = readings tr ++ readings (⟨.commit n, x⟩ :: rest) := by
      rw [trace, readings, List.filterMap_append]
      rfl
    refine ⟨start, now, ?_, ?_, UInt64.le_trans upTo after, order, inWindow now current⟩
    · rw [grows, List.head?_append, first]
      rfl
    · rw [grows]
      exact List.mem_append_left _ read

end Windows

section Periods
variable {pre mid post : List Moment}

/-- A device that has an owner keeps one. -/
def StaysOwned (m n : DeviceSnapshot) : Prop := m.owner ≠ none → n.owner ≠ none

instance : Std.Refl StaysOwned := ⟨fun _ => id⟩

instance : IsTrans DeviceSnapshot StaysOwned := ⟨fun _ _ _ h h' owned => h' (h owned)⟩

/-- Only a reset takes the owner from the device. -/
theorem Run.resets (run : Run P f) (split : run.moments = pre ++ mid ++ post) {a b : DeviceSnapshot}
    (first : storeAfter pre = some a) (owned : a.owner ≠ none)
    (last : storeAfter (pre ++ mid) = some b) (ownerless : b.owner = none) :
    ∃ q ∈ mid, q.Requests (· = .factoryReset) ∧ ∃ n, q.Stores n ∧ n.owner = none := by
  by_contra never
  refine run.continues (R := StaysOwned) split first last ?_ owned ownerless
  intro q hq m n s pr ow stores durable owned lost
  have request := durable.request
  cases durable.change.owner with
  | kept same => exact owned (same.symm.trans lost)
  | claimed _ _ _ _ _ _ _ none => exact owned none
  | reset context cmd asked action =>
    exact never ⟨q, hq, ⟨context, cmd, request ▸ asked, action⟩, n, stores, lost⟩
  | replaced _ _ _ _ _ _ owner => cases owner.symm.trans lost

/-- Between two claims that take the device there is a reset. -/
theorem Run.resets_between (run : Run P f) {q q' : Moment}
    (split : run.moments = pre ++ q :: mid ++ q' :: post) (takes : q.TakesOwnership)
    (again : q'.TakesOwnership) :
    ∃ x ∈ mid, x.Requests (· = .factoryReset) ∧ ∃ n, x.Stores n ∧ n.owner = none := by
  obtain ⟨_, n, _, stores, _, owned⟩ := takes
  obtain ⟨b, _, disk, _, ownerless, _⟩ := again
  have order : run.moments = (pre ++ [q]) ++ mid ++ (q' :: post) := by simpa using split
  have last : storeAfter (pre ++ [q] ++ mid) = some b := by
    rw [← disk]
    exact (run.disk_eq order).symm
  exact run.resets order (stores.storeAfter pre) owned last ownerless

end Periods

section Accuracy
variable {r : Record P f} {s s' : Lock P f} {c c' : Controller} {t : UInt64}

/-- The answers of a platform that works: the store and the actuator obey, and the monotonic
clock stands at `t`. -/
def Benign (t : UInt64) : Event Answer → Prop
  | ⟨.commit _, x⟩ => x = .ok
  | ⟨.stopAction, x⟩ => x = .ok ()
  | ⟨.monotonicMs, now⟩ => now = t
  | _ => True

/-- Such answers do not poison the lock. -/
theorem Benign.live {ev : Event Answer} {a a' : Abs} (h : Benign t ev) (hs : a.Step P f ev a')
    (live : a.poisoned = false) (upTo : a.lastMono ≤ t) :
    a'.poisoned = false ∧ a'.lastMono ≤ t := by
  cases hs.shape with
  | late now _ back =>
    obtain rfl : now = t := h
    exact absurd upTo (UInt64.not_le.2 back)
  | tick now =>
    obtain rfl : now = t := h
    exact ⟨live, UInt64.le_refl now⟩
  | stop r =>
    obtain rfl : r = .ok () := h
    exact ⟨live, upTo⟩
  | commit _ r | install _ r =>
    obtain rfl : r = .ok := h
    exact ⟨live, upTo⟩
  | load r => cases r <;> exact ⟨live, upTo⟩
  | _ => exact ⟨live, upTo⟩

/-- The first thing a live controller does with a request is to read the clock. -/
theorem handle_reads (live : c.poisoned = false) (context : SessionContext) (cmd : Command) :
    ∃ next, handle P context cmd c = .op .monotonicMs next := by
  obtain ⟨factory, state, poisoned, sample, bolt, fault, active, mono, deadline, door, opened,
    failures, confirmation⟩ := c
  obtain rfl : poisoned = false := live
  exact ⟨_, rfl⟩

theorem Record.reads (r : Record P f) (found : r.before.controller = some c)
    (asked : r.call.request (some c) = some (context, cmd)) (live : c.poisoned = false)
    (left : r.after.controller = some c') : ∃ now, now ∈ readings r.trace := by
  obtain ⟨before, k, trace, output, after, performed⟩ := r
  cases performed with
  | construct => cases asked
  | @method m c₀ _ _ result controller exec =>
    cases controller.symm.trans found
    obtain ⟨next, first⟩ := handle_reads (P := P) live context cmd
    have program : m.program P c = .op .monotonicMs fun x =>
        (next x).bind fun y => .pure (.response y.1, y.2) := by
      cases m with
      | handle | handleLocal =>
        cases asked
        change (handle P _ _ c).bind _ = _
        rw [first]
        rfl
      | _ => cases asked
    rw [program] at exec
    cases exec with
    | cut => cases left
    | step => exact ⟨_, mem_readings.2 List.mem_cons_self⟩

/-- A request that a live controller has answered while the clock stood at `t` was answered
at that time, by a controller that is live still. -/
theorem Follows.benign (follows : Follows r s s') (found : r.before.controller = some c)
    (asked : r.call.request (some c) = some (context, cmd)) (live : c.poisoned = false)
    (upTo : c.lastMono ≤ t) (benign : ∀ ev ∈ r.trace, Benign t ev)
    (left : r.after.controller = some c') : c'.poisoned = false ∧ c'.lastMono = t := by
  have method := Call.request_method asked
  have entered := follows.coupled found method
  have coupled := follows.after.controller c' left
  have kept : s'.1.poisoned = false ∧ s'.1.lastMono ≤ t := by
    refine Follows.along (I := fun tr u => (∀ ev ∈ tr, Benign t ev) →
      u.1.poisoned = false ∧ u.1.lastMono ≤ t) ?_ ?_ follows.path benign
    · intro tr u ev u' earlier hs all
      obtain ⟨live, upTo⟩ := earlier fun ev hev => all ev (List.mem_append_left _ hev)
      exact (all ev (List.mem_append_right _ List.mem_cons_self)).live hs live upTo
    · intro _
      exact ⟨entered.poisoned.trans live, entered.mono ▸ upTo⟩
  have live' : c'.poisoned = false := coupled.poisoned.symm.trans kept.1
  refine ⟨live', UInt64.le_antisymm (coupled.mono ▸ kept.2) ?_⟩
  obtain ⟨now, read⟩ := r.reads found asked live left
  obtain rfl : now = t := benign _ (mem_readings.1 read)
  exact (follows.later method found left live').2 now read

/-- A claim that a device in this state has no reason to decline but a closed window. -/
structure Proper (P : Primitives) (f : FactoryIdentity) (m : DeviceSnapshot)
    (context : SessionContext) (cmd : Command) (key issuer : Bytes32) (admin : Bytes) : Prop where
  action : cmd.action = .claim key issuer admin
  wellFormed : cmd.validate = .ok () ∧ ∃ a, Action.parse cmd.action.value = .ok a
  supported : cmd.capability &&& f.info.capabilities ≠ 0
  current : context.generation = m.generation
  presents : Presents P f m context key issuer admin
  generations : m.generation.toNat + 1 < 2^64
  cursors : m.nextCursor.toNat + 3 < 2^64

/-- A proper claim on a platform that works is accepted if the window is open, and only then. -/
theorem Follows.accepts_iff (follows : Follows r s s') (found : r.before.controller = some c)
    {key issuer : Bytes32} (asked : r.call.request (some c) = some (context, cmd))
    (proper : Proper P f c.state context cmd key issuer admin) (live : c.poisoned = false)
    (ownerless : c.state.owner = none)
    (few : ∀ until_, c.pairingUntil = some until_ → c.pairingFailures < 5) (upTo : c.lastMono ≤ t)
    (benign : ∀ ev ∈ r.trace, Benign t ev) (returned : r.output = some out) :
    (c.pairingUntil.any fun until_ => t < until_) = true ↔ out.failed = false := by
  obtain ⟨y, c', rfl, left, tried⟩ := follows.before.tried found asked proper.action returned
  obtain ⟨live', rfl⟩ := follows.benign found asked live upTo benign left
  obtain ⟨opcode, result⟩ := y
  cases tried with
  | wrong _ _ setupKey => exact absurd proper.presents.setupKey setupKey
  | claimed _ window =>
    obtain ⟨until_, opened, before, _⟩ := windowClosed_eq_false window
    rw [opened]
    exact ⟨fun _ => rfl, fun _ => decide_eq_true before⟩
  | declined _ _ _ why =>
    refine ⟨fun opened => ?_, fun ok => by cases ok⟩
    cases why with
    | malformed h => exact absurd proper.wellFormed.2.choose_spec (h proper.wellFormed.1 _)
    | unsupported h => exact absurd h proper.supported
    | stale h => exact absurd proper.current h
    | owned h =>
      rw [ownerless] at h
      cases h
    | closed h =>
      cases window : c.pairingUntil with
      | none =>
        rw [window] at opened
        cases opened
      | some until_ =>
        have few := few until_ window
        simp only [windowClosed, window, Option.all_some, Option.any_some, Bool.or_eq_true,
          decide_eq_true_eq] at h opened
        rcases h with late | full
        · exact absurd opened (UInt64.not_lt.2 late)
        · exact absurd few (UInt8.not_lt.2 full)
    | unfounded h => exact absurd proper.presents h
    | generations h => exact absurd proper.generations (by omega)
    | exhausted h => exact absurd proper.cursors (by omega)
    | poisoned h => cases live'.symm.trans h

theorem lastTick_eq (mono : UInt64) (tr : List (Event Answer)) :
    lastTick mono tr = (readings tr).getLast?.getD mono := by
  induction tr using List.reverseRecOn with
  | nil => rfl
  | append_singleton tr ev ih =>
    obtain ⟨e, x⟩ := ev
    cases e with
    | monotonicMs => simp [lastTick, readings]
    | _ => simpa [lastTick, readings] using ih

/-- The platform that answers so. -/
def Script.benign (t : UInt64) : Script where
  monotonicMs _ := t
  wallClock := none
  sensors _ := ⟨.unknown, .unknown, .unknown, .unknown⟩
  stopAction _ := .ok ()
  commit _ := .ok

theorem Script.benign_answer (t : UInt64) (disk : Option DeviceSnapshot)
    (past : List (Event Answer)) (e : Effect) : Benign t ⟨e, (Script.benign t).answer disk past e⟩ := by
  cases e <;> first | rfl | trivial

/-- What the pairing status `w`, read at the time `t`, says about a claim in its place: on a
platform that works a proper claim can be made, and every such claim is accepted exactly if the
status is open. -/
def Foretells (r : Record P f) (c : Controller) (t : UInt64) (w : Bool) : Prop :=
  ∀ context cmd key issuer admin, Proper P f c.state context cmd key issuer admin →
    (∃ q : Record P f, q.before = r.before ∧ q.call = .method (.handle context cmd)
      ∧ (∀ ev ∈ q.trace, Benign t ev) ∧ ∃ out, q.output = some out)
    ∧ ∀ q : Record P f, q.before = r.before → q.call.request (some c) = some (context, cmd) →
      (∀ ev ∈ q.trace, Benign t ev) → ∀ out, q.output = some out → (w = true ↔ out.failed = false)

/-- The pairing status is accurate. -/
theorem Run.foretells (run : Run P f) (split : run.records = pre ++ r :: post)
    (found : r.before.controller = some c) (asked : r.call.request (some c) = some (context, cmd))
    (action : cmd.action = .pairingStatus) {y : Response} {epoch generation : UInt64} {w : Bool}
    (returned : r.output = some (.response y))
    (answer : y.result = .ok (.pairing epoch generation w))
    (last : (readings r.trace).getLast? = some t) : Foretells r c t w := by
  obtain ⟨earlier, _, final⟩ := run.upTo split
  obtain ⟨s, s', _, follows⟩ := run.call Forward.inductively split
  obtain ⟨_, c', ⟨⟩, left, surveyed⟩ := follows.before.surveyed found asked action returned
  obtain ⟨ownerless, _, _, status⟩ := surveyed _ answer
  cases status
  have method := Call.request_method asked
  obtain ⟨m, call⟩ := Call.exists_method method
  have ok : Output.failed (.response y) = false := by
    obtain ⟨opcode, result⟩ := y
    cases answer
    rfl
  have live' := ((follows.returned m c _ c' call found returned left).ready ok).live
  have live := r.live method found left live'
  have coupled := follows.after.controller c' left
  have time : c'.lastMono = t := by
    rw [← coupled.mono, (follows.timed found method follows.path).recalls.mono
      (coupled.poisoned.trans live'), lastTick_eq, last]
    rfl
  have upTo := (follows.later method found left live').1
  rw [time] at upTo ⊢
  have few : ∀ until_, c.pairingUntil = some until_ → c.pairingFailures < 5 := fun until_ window =>
    (earlier.paired (final ▸ found) live window).few
  intro context' cmd' key issuer admin proper
  refine ⟨⟨.method P f r.before found (.handle context' cmd') (.benign t), rfl, rfl,
    Record.method_forall P f (Script.benign_answer t) _ found _, _, rfl⟩, ?_⟩
  intro q before asked' benign out returned'
  have tracks : Tracks q.before s := before ▸ follows.before
  obtain ⟨_, follows'⟩ := q.follows tracks
  exact follows'.accepts_iff (before ▸ found) asked' proper live ownerless few upTo benign returned'

end Accuracy

/-- Commissioning is bounded by gestures at the device. -/
structure CommissioningBounded (run : Run P f) : Prop where
  /-- Between gestures at most five setup keys are compared and found wrong. -/
  guesses : ∀ pre mid post, run.records = pre ++ mid ++ post → (∀ r ∈ mid, ¬ Gesture r) →
    AtMost 5 Guessed mid
  /-- An accepted claim takes ownership. -/
  claimed : ∀ r ∈ run.records, ∀ context cmd key issuer admin out,
    r.Claims context cmd key issuer admin → r.output = some out → out.failed = false →
    ∃ q ∈ r.moments, q.TakesOwnership
  /-- An owner is only taken within two minutes of a gesture of the same boot, since which fewer
  than five wrong keys were tried and the device got no other owner and no other epoch. -/
  taken : ∀ pre r post, run.records = pre ++ r :: post → ∀ q ∈ r.moments, q.TakesOwnership →
    ∃ g later t, Since pre g later t ∧ AtMost 4 Guessed later ∧ InTime t r
      ∧ ∀ out, r.output = some out → out.failed = false →
        ∀ now ∈ readings r.trace, now.toNat < t.toNat + 120000
  /-- Between two owners taken there is a reset. -/
  reset : ∀ pre q mid q' post, run.moments = pre ++ q :: mid ++ q' :: post → q.TakesOwnership →
    q'.TakesOwnership →
    ∃ x ∈ mid, x.Requests (· = .factoryReset) ∧ ∃ n, x.Stores n ∧ n.owner = none
  /-- The pairing status of an ownerless device foretells whether a claim would be accepted. -/
  foretold : ∀ r ∈ run.records, ∀ c, r.before.controller = some c → ∀ context cmd,
    r.call.request (some c) = some (context, cmd) → cmd.action = .pairingStatus →
    ∀ y epoch generation w, r.output = some (.response y) →
    y.result = .ok (.pairing epoch generation w) →
    ∀ t, (readings r.trace).getLast? = some t → Foretells r c t w

namespace Bench

/-- A device that offers the pairing status but no claims. -/
def mute : FactoryIdentity := { factory with info := { factory.info with capabilities := 0x400000 } }

/-- It is provisioned, and the pairing gesture is made. -/
def gestured : Run primitives mute :=
  (Run.blank.then (steady 1) (.construct .provision)).then (steady 2) (.method .openPairingWindow)

def surveyed : Run primitives mute :=
  gestured.then (steady 2) (.method (.handle ⟨peer, 0⟩ ⟨[], none, .pairingStatus⟩))

def refused : Run primitives mute :=
  gestured.then (steady 2) (.method (.handle ⟨peer, 0⟩ ⟨[], some 1, .claim key key [2, 0]⟩))

end Bench

end OpenLock
