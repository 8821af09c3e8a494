import OpenLock.Effects.Complete
import OpenLock.Crypto.Cose

/-! The Noise channel of `noise.rs`. The handshake and transport states of `snow` are reached
through effects; nothing is assumed of their answers here. -/
namespace OpenLock
open Effects

/-- Calls into `snow`, on the state that the channel is in. -/
inductive NoiseCall where
  | build (privateKey : Bytes32) (peer : Option Bytes32)
  | writeHandshake (payload : Bytes)
  | readHandshake (message : Bytes)
  | handshakeFinished
  | intoTransport
  | writeTransport (payload : Bytes)
  | readTransport (message : Bytes)
  | remoteStatic
  deriving DecidableEq

abbrev NoiseAnswer : NoiseCall → Type
  | .build _ _ | .handshakeFinished | .intoTransport => Bool
  | .writeHandshake _ | .readHandshake _ | .writeTransport _ | .readTransport _ | .remoteStatic =>
    Option Bytes

abbrev NoiseEvent := Event NoiseAnswer

inductive NoiseState where
  | handshake | transport | closed
  deriving DecidableEq

/-- A method of `NoiseChannel`. -/
abbrev Chan := ExceptT Error (StateT NoiseState (Prog NoiseAnswer))

namespace NoiseChannel
variable (P : Primitives)

def new (privateKey : Bytes32) (peer : Option Bytes32) :
    ExceptT Error (Prog NoiseAnswer) NoiseState := do
  failIf (privateKey = Vector.replicate 32 0) .noise
  let built ← ExceptT.lift (Prog.perform (.build privateKey peer))
  failIf (built = false) .noise
  pure .handshake

def initiator (privateKey peer : Bytes32) : ExceptT Error (Prog NoiseAnswer) NoiseState := do
  ofExcept (validatePublic P peer)
  new privateKey (some peer)

def responder (privateKey : Bytes32) : ExceptT Error (Prog NoiseAnswer) NoiseState :=
  new privateKey none

def finishHandshake : Chan Unit := do
  if (← get) = .handshake then
    if ← ask .handshakeFinished then
      set NoiseState.closed
      if ← ask .intoTransport then set NoiseState.transport else throw .noise

/-- The end that `write` and `read` share: a failed call closes the channel. -/
def settle : Option Bytes → Chan Bytes
  | some out => do
    finishHandshake
    pure out
  | none => do
    set NoiseState.closed
    throw .noise

def write (payload : Bytes) : Chan Bytes := do
  failIf (payload.length > maxMessageSize - 128) .objectTooLarge
  match ← get with
  | .handshake => do settle (← ask (.writeHandshake payload))
  | .transport => do settle (← ask (.writeTransport payload))
  | .closed => throw .invalidState

def read (input : Bytes) : Chan Bytes := do
  if input.length > maxMessageSize then
    set NoiseState.closed
    throw .objectTooLarge
  else
    match ← get with
    | .handshake => do settle (← ask (.readHandshake input))
    | .transport => do settle (← ask (.readTransport input))
    | .closed => throw .invalidState

def subjectKey (peer : Bytes) : Except Error SubjectKey :=
  if h : peer.length = 32 then do
    let key : Bytes32 := ⟨peer.toArray, by simpa using h⟩
    validatePublic P key
    pure ⟨key⟩
  else .error .noise

def peerStatic : Chan SubjectKey := do
  match ← get with
  | .closed => throw .invalidState
  | _ => do
    let peer ← ofExcept (okOr (← ask NoiseCall.remoteStatic) .invalidState)
    ofExcept (subjectKey P peer)

variable {P} {C : Type} {ch ch' : NoiseState} {tr : List NoiseEvent} {e : Error} {payload : Bytes}
  {r : Except Error Bytes} {out : Option Bytes} {p : Prop} {c c' : C}

@[simp] theorem takesE_failIf [Decidable p] {r : Except Error Unit} :
    TakesE (failIf p e : ExceptT Error (StateT C (Prog NoiseAnswer)) Unit) c tr r c' ↔
      tr = [] ∧ r = (if p then .error e else .ok ()) ∧ c' = c := by
  unfold failIf
  split
  · exact takesE_throw
  · exact takesE_pure

theorem takesE_failIf_bind {α : Type} [Decidable p]
    {f : Unit → ExceptT Error (StateT C (Prog NoiseAnswer)) α} {r : Except Error α} :
    TakesE (failIf p e >>= f) c tr r c' ↔
      (¬ p ∧ TakesE (f ()) c tr r c') ∨ (p ∧ tr = [] ∧ r = .error e ∧ c' = c) := by
  unfold failIf
  split
  · rename_i holds
    change TakesE (throw e : ExceptT Error (StateT C (Prog NoiseAnswer)) α) c tr r c' ↔ _
    rw [takesE_throw]
    simp [holds]
  · rename_i fails
    change TakesE (f ()) c tr r c' ↔ _
    simp [fails]

theorem new_ok {privateKey : Bytes32} {peer : Option Bytes32}
    (h : (new privateKey peer).run.Takes tr (.ok ch)) : ch = .handshake := by
  simp only [new, takes_run_bind_ok] at h
  obtain ⟨_, _, _, _, ⟨_, _, _, _, ⟨_, _, _, _, last, _⟩, _⟩, _⟩ := h
  exact Except.ok.inj (Prog.takes_pure.1 last).2

/-- How a handshake message that went through ends: either side may be finished by it. -/
inductive Finishes : List NoiseEvent → NoiseState → Prop
  | unfinished : Finishes [⟨.handshakeFinished, false⟩] .handshake
  | finished : Finishes [⟨.handshakeFinished, true⟩, ⟨.intoTransport, true⟩] .transport

theorem Finishes.open (h : Finishes tr ch) : ch ≠ .closed := by
  cases h <;> exact fun h => by cases h

theorem finishHandshake_ok {u : Unit} :
    TakesE finishHandshake ch tr (.ok u) ch' ↔
      ch = .handshake ∧ Finishes tr ch' ∨ ch ≠ .handshake ∧ tr = [] ∧ ch' = ch := by
  unfold finishHandshake
  constructor
  · intro h
    simp only [takesE_bind_ok, takesE_get, Except.ok.injEq] at h
    obtain ⟨_, _, _, tr, ⟨rfl, rfl, rfl⟩, h, rfl⟩ := h
    split_ifs at h with opening
    · refine .inl ⟨opening, ?_⟩
      simp only [takesE_bind_ok, takesE_ask_ok] at h
      obtain ⟨finished, _, _, _, ⟨rfl, rfl⟩, h, rfl⟩ := h
      cases finished with
      | false =>
        obtain ⟨rfl, _, rfl⟩ := takesE_pure.1 h
        rw [opening]
        exact .unfinished
      | true =>
        simp only [if_true, takesE_bind_ok, takesE_set, takesE_ask_ok] at h
        obtain ⟨_, _, _, _, ⟨rfl, _, rfl⟩, ⟨moved, _, _, _, ⟨rfl, rfl⟩, h, rfl⟩, rfl⟩ := h
        cases moved with
        | false => simp at h
        | true =>
          obtain ⟨rfl, _, rfl⟩ := takesE_set.1 h
          exact .finished
    · obtain ⟨rfl, _, rfl⟩ := takesE_pure.1 h
      exact .inr ⟨opening, rfl, rfl⟩
  · rintro (⟨rfl, h⟩ | ⟨other, rfl, rfl⟩)
    · cases h <;> simp
    · simp [other]

theorem settle_ok {b : Bytes} : TakesE (settle out) ch tr (.ok b) ch' ↔ out = some b ∧
      (ch = .handshake ∧ Finishes tr ch' ∨ ch ≠ .handshake ∧ tr = [] ∧ ch' = ch) := by
  cases out with
  | none => simp [settle]
  | some out =>
    rw [settle, takesE_bind_ok, ← finishHandshake_ok (u := ())]
    constructor
    · rintro ⟨_, c, tr₁, _, first, last, rfl⟩
      simp only [takesE_pure, Except.ok.injEq] at last
      obtain ⟨rfl, rfl, rfl⟩ := last
      rw [List.append_nil]
      exact ⟨rfl, first⟩
    · rintro ⟨same, first⟩
      cases same
      exact ⟨(), ch', tr, [], first, takesE_pure.2 ⟨rfl, rfl, rfl⟩, (List.append_nil tr).symm⟩

theorem write_ok {payload out : Bytes} :
    TakesE (write payload) ch tr (.ok out) ch' ↔ payload.length ≤ maxMessageSize - 128 ∧
      ((ch = .handshake ∧ ∃ rest, Finishes rest ch' ∧
          tr = ⟨.writeHandshake payload, some out⟩ :: rest) ∨
        ch = .transport ∧ ch' = .transport ∧ tr = [⟨.writeTransport payload, some out⟩]) := by
  unfold write
  cases ch <;> simp [settle_ok]

/-- A payload passed the transport, or a handshake message was read. -/
def Passes (ev : NoiseEvent) : Prop :=
  ∃ message out, ev = ⟨.writeTransport message, some out⟩ ∨ ev = ⟨.readTransport message, some out⟩ ∨
    ev = ⟨.readHandshake message, some out⟩

def Unsent (tr : List NoiseEvent) : Prop := ∀ ev ∈ tr, ¬ Passes ev

theorem unsent_nil : Unsent [] := fun _ mem => by cases mem

theorem unsent_cons {ev : NoiseEvent} : Unsent (ev :: tr) ↔ ¬ Passes ev ∧ Unsent tr :=
  List.forall_mem_cons

theorem Finishes.unsent (h : Finishes tr ch) : Unsent tr := by
  cases h <;> simp [Unsent, Passes]

private theorem finishHandshake_error (h : TakesE finishHandshake ch tr (.error e) ch') :
    ch = .handshake ∧ tr = [⟨.handshakeFinished, true⟩, ⟨.intoTransport, false⟩] ∧
      ch' = .closed := by
  unfold finishHandshake at h
  rw [takesE_get_bind] at h
  split_ifs at h with opening
  · rw [takesE_ask_bind] at h
    obtain ⟨finished, rest, rfl, h⟩ := h
    cases finished with
    | false => simp at h
    | true =>
      rw [if_pos rfl] at h
      change TakesE (ask .intoTransport >>= _) .closed rest _ ch' at h
      rw [takesE_ask_bind] at h
      obtain ⟨moved, rest, rfl, h⟩ := h
      cases moved with
      | false =>
        simp only [Bool.false_eq_true, if_false, takesE_throw] at h
        obtain ⟨rfl, _, rfl⟩ := h
        exact ⟨opening, rfl, rfl⟩
      | true => simp at h
  · simp at h

private theorem settle_error (h : TakesE (settle out) ch tr (.error e) ch') :
    ch' = .closed ∧ (ch ≠ .handshake → out = none) ∧ Unsent tr := by
  cases out with
  | none =>
    simp only [settle, takesE_bind, takesE_set, takesE_throw] at h
    obtain ⟨_, _, _, _, ⟨rfl, _, rfl⟩, ⟨rfl, _, rfl⟩, rfl⟩ | ⟨_, ⟨_, h, _⟩, _⟩ := h
    · exact ⟨rfl, fun _ => rfl, unsent_nil⟩
    · cases h
  | some out =>
    simp only [settle, takesE_bind, takesE_pure] at h
    obtain ⟨_, _, _, _, _, ⟨_, h, _⟩, _⟩ | ⟨_, h, _⟩ := h
    · cases h
    · obtain ⟨rfl, rfl, rfl⟩ := finishHandshake_error h
      exact ⟨rfl, fun other => absurd rfl other, by simp [Unsent, Passes]⟩

theorem write_error (h : TakesE (write payload) ch tr (.error e) ch') :
    Unsent tr ∧ (ch' = ch ∨ ch' = .closed) := by
  unfold write at h
  rw [takesE_failIf_bind, takesE_get_bind] at h
  obtain ⟨_, h⟩ | ⟨_, rfl, _, rfl⟩ := h
  · cases ch with
    | closed =>
      obtain ⟨rfl, _, rfl⟩ := takesE_throw.1 h
      exact ⟨unsent_nil, .inl rfl⟩
    | handshake =>
      obtain ⟨answer, rest, rfl, settled⟩ := takesE_ask_bind.1 h
      obtain ⟨rfl, _, rest⟩ := settle_error settled
      exact ⟨unsent_cons.2 ⟨by simp [Passes], rest⟩, .inr rfl⟩
    | transport =>
      obtain ⟨answer, rest, rfl, settled⟩ := takesE_ask_bind.1 h
      obtain ⟨rfl, failed, rest⟩ := settle_error settled
      cases failed (by decide)
      exact ⟨unsent_cons.2 ⟨by simp [Passes], rest⟩, .inr rfl⟩
  · exact ⟨unsent_nil, .inl rfl⟩

/-- Noise failed to encrypt a payload. -/
def Broken (tr : List NoiseEvent) : Prop := ∃ payload, ⟨.writeTransport payload, none⟩ ∈ tr

theorem not_broken_nil : ¬ Broken [] := by
  rintro ⟨_, mem⟩
  cases mem

/-- In transport mode a payload is refused for its length, or Noise failed. -/
theorem write_refused (h : TakesE (write payload) .transport tr (.error e) ch') :
    (maxMessageSize - 128 < payload.length ∧ ch' = .transport) ∨ Broken tr := by
  unfold write at h
  rw [takesE_failIf_bind, takesE_get_bind] at h
  obtain ⟨_, h⟩ | ⟨long, rfl, _, rfl⟩ := h
  · obtain ⟨answer, rest, rfl, settled⟩ := takesE_ask_bind.1 h
    cases (settle_error settled).2.1 (by decide)
    exact .inr ⟨payload, List.mem_cons_self⟩
  · exact .inl ⟨long, rfl⟩

theorem write_closed (h : TakesE (write payload) .closed tr r ch') :
    (∃ e, r = .error e) ∧ ch' = .closed := by
  cases r with
  | ok out =>
    obtain ⟨_, ⟨inside, _⟩ | ⟨inside, _⟩⟩ := write_ok.1 h <;> cases inside
  | error e => exact ⟨⟨e, rfl⟩, (write_error h).2.elim id id⟩

theorem write_unsent (h : TakesE (write payload) ch tr r ch') (outside : ch ≠ .transport) :
    Unsent tr := by
  cases r with
  | ok out =>
    obtain ⟨_, ⟨_, rest, finishes, rfl⟩ | ⟨inside, _⟩⟩ := write_ok.1 h
    · exact unsent_cons.2 ⟨by simp [Passes], finishes.unsent⟩
    · exact absurd inside outside
  | error e => exact (write_error h).1

theorem read_ok {input out : Bytes} :
    TakesE (read input) ch tr (.ok out) ch' ↔ input.length ≤ maxMessageSize ∧
      ((ch = .handshake ∧ ∃ rest, Finishes rest ch' ∧
          tr = ⟨.readHandshake input, some out⟩ :: rest) ∨
        ch = .transport ∧ ch' = .transport ∧ tr = [⟨.readTransport input, some out⟩]) := by
  unfold read
  by_cases long : input.length > maxMessageSize
  · simp [long, Nat.not_le.2 long]
  · cases ch <;> simp [long, Nat.not_lt.1 long, settle_ok]

theorem read_transport_error {input : Bytes}
    (h : TakesE (read input) .transport tr (.error e) ch') :
    (tr = [] ∧ maxMessageSize < input.length) ∨ tr = [⟨.readTransport input, none⟩] := by
  unfold read at h
  split_ifs at h with long
  · simp only [takesE_bind, takesE_set, takesE_throw] at h
    obtain ⟨_, _, _, _, ⟨rfl, _, rfl⟩, ⟨rfl, _, rfl⟩, rfl⟩ | ⟨_, ⟨rfl, _⟩, _⟩ := h <;>
      exact .inl ⟨rfl, long⟩
  · obtain ⟨answer, rest, rfl, settled⟩ := takesE_ask_bind.1 (takesE_get_bind.1 h)
    cases answer with
    | none =>
      simp only [settle, takesE_bind, takesE_set, takesE_throw] at settled
      obtain ⟨_, _, _, _, ⟨rfl, _, rfl⟩, ⟨rfl, _, rfl⟩, rfl⟩ | ⟨_, ⟨_, h, _⟩, _⟩ := settled
      · exact .inr rfl
      · cases h
    | some out => cases (settle_error settled).2.1 (by decide)

theorem peerStatic_error (h : TakesE (peerStatic P) .transport tr (.error e) ch') :
    ∃ answer, tr = [⟨.remoteStatic, answer⟩] ∧
      ∀ key, answer = some key → ∃ e', subjectKey P key = .error e' := by
  obtain ⟨answer, rest, rfl, named⟩ := takesE_ask_bind.1 (takesE_get_bind.1 h)
  obtain ⟨key, found, checked⟩ | ⟨_, missing, rfl, _⟩ := takesE_ofExcept_bind.1 named
  · obtain ⟨rfl, failed, _⟩ := takesE_ofExcept.1 checked
    rw [okOr_eq_ok] at found
    refine ⟨answer, rfl, fun key' same => ?_⟩
    cases found.symm.trans same
    exact ⟨_, failed⟩
  · refine ⟨answer, rfl, fun key' same => ?_⟩
    rw [same] at missing
    cases missing

theorem peerStatic_ok {key : SubjectKey} :
    TakesE (peerStatic P) ch tr (.ok key) ch' ↔ ch ≠ .closed ∧
      ∃ peer, tr = [⟨.remoteStatic, some peer⟩] ∧ ch' = ch ∧ subjectKey P peer = .ok key := by
  unfold peerStatic
  cases ch <;> simp

end NoiseChannel
end OpenLock
