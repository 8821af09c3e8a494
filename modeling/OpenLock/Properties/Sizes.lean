import OpenLock.Protocol.Reliable
import OpenLock.Protocol.Scripted

/-! The sizes that a session announces are the sizes of its packets, and a send or a response
that fails leaves the session as it was. -/
namespace OpenLock
open Cbor Effects Session

variable {P : Primitives}

/-- What a session promises of its two sending calls over a reliable transport. The Noise
state is untouched when nothing was asked of Noise. -/
structure AnnouncedSizes (P : Primitives) (s : Session) : Prop where
  send_failed : ∀ c tr e s', Reliable tr → TakesE (send P c) s tr (.error e) s' →
    s' = s ∧ tr = []
  send_sized : ∀ c tr id packet s', Reliable tr → TakesE (send P c) s tr (.ok (id, packet)) s' →
    s.requestSize P c = .ok packet.length ∧ packet.length ≤ 4096 ∧ id = s.nextRequest
      ∧ id ∉ s.pendingRequests ∧ s'.pendingRequests = s.pendingRequests.insert id c.capability
  send_accepted : ∀ c n, s.requestSize P c = .ok n → s.nextRequest.toNat + 1 < 2 ^ 32 →
    ∀ tr r s', Reliable tr → TakesE (send P c) s tr r s' → ∃ id packet, r = .ok (id, packet)
  respond_failed : ∀ id response tr e s', Reliable tr →
    TakesE (respond P id response) s tr (.error e) s' → s' = s ∧ tr = []
  respond_sized : ∀ id response tr packet s', Reliable tr →
    TakesE (respond P id response) s tr (.ok packet) s' →
    s.responseSize P id response = .ok packet.length ∧ packet.length ≤ 4096
      ∧ id ∈ s.pendingRequests ∧ s'.pendingRequests = s.pendingRequests.erase id
  respond_accepted : ∀ id response n, s.responseSize P id response = .ok n →
    ∀ tr r s', Reliable tr → TakesE (respond P id response) s tr r s' → ∃ packet, r = .ok packet

/-- A capability that a session has is one of its own, so it shares a bit with them. -/
private theorem capability_shared {r : Response} {caps : UInt64}
    (valid : validateResponse r = .ok ()) (supported : r.capability &&& caps = r.capability) :
    r.capability &&& caps ≠ 0 := by
  have low : r.opcode.toNat ≤ 22 := (validateResponse_eq_ok.1 valid).1
  rw [supported, Response.capability]
  intro zero
  have bits := congrArg UInt64.toNat zero
  have shift : r.opcode.toNat % 64 = r.opcode.toNat := Nat.mod_eq_of_lt (by omega)
  have fits : 2 ^ r.opcode.toNat < 2 ^ 64 := Nat.pow_lt_pow_right (by decide) (by omega)
  rw [UInt64.toNat_shiftLeft, UInt8.toNat_toUInt64, shift, Nat.shiftLeft_eq, UInt64.toNat_one,
    Nat.one_mul, Nat.mod_eq_of_lt fits] at bits
  exact absurd bits (Nat.two_pow_pos _).ne'

theorem failed_sends_leave_session_intact (codec : P.Ciborium) {s : Session} (h : Reached P s) :
    AnnouncedSizes P s where
  send_failed c tr e s' reliable takes := by
    obtain ⟨_, _, rfl, rfl, _⟩ | ⟨_, _, _, _, other, _⟩ := send_reliable codec reliable takes
    · exact ⟨rfl, rfl⟩
    · cases other
  send_sized c tr id packet s' reliable takes := by
    obtain ⟨_, other, _⟩ | ⟨_, _, _, _, same, _, checked, encoded, sized, rfl⟩ :=
      send_reliable codec reliable takes
    · cases other
    · cases same
      have fresh : s.nextRequest ∉ s.pendingRequests := fun mem =>
        UInt32.lt_irrefl _ ((h.orderly codec).below checked.sendable.1 _ mem)
      exact ⟨sized, ((encodePacket_eq_ok codec).1 encoded).2.2, rfl, fresh, rfl⟩
  send_accepted c n sized room tr r s' reliable takes := by
    obtain ⟨_, _, _, _, refused | exhausted⟩ | ⟨_, _, packet, _, rfl, _⟩ :=
      send_reliable codec reliable takes
    · exact absurd sized (refused n)
    · have added : checkedAdd32 s.nextRequest 1 ≠ none := by
        simp only [checkedAdd32, UInt32.toNat_one, if_pos room]
        exact Option.some_ne_none _
      exact absurd exhausted added
    · exact ⟨_, packet, rfl⟩
  respond_failed id response tr e s' reliable takes := by
    obtain ⟨_, _, rfl, rfl, _⟩ | ⟨_, _, _, other, _⟩ := respond_reliable codec reliable takes
    · exact ⟨rfl, rfl⟩
    · cases other
  respond_sized id response tr packet s' reliable takes := by
    obtain ⟨_, other, _⟩ | ⟨_, _, _, same, _, checked, encoded, sized, rfl⟩ :=
      respond_reliable codec reliable takes
    · cases other
    · cases same
      refine ⟨sized, ((encodePacket_eq_ok codec).1 encoded).2.2, ?_, rfl⟩
      exact Std.ExtTreeMap.mem_iff_isSome_getElem?.2 (checked.expected ▸ rfl)
  respond_accepted id response n sized tr r s' reliable takes := by
    obtain ⟨valid, _, expected, _⟩ := responseSize_eq_ok.1 sized
    have pending : id ∈ s.pendingRequests :=
      Std.ExtTreeMap.mem_iff_isSome_getElem?.2 (expected ▸ rfl)
    have orderly := h.orderly codec
    obtain ⟨_, _, _, _, refused | outside | unsupported⟩ | ⟨_, _, packet, rfl, _⟩ :=
      respond_reliable codec reliable takes
    · exact absurd sized (refused n)
    · exact absurd (orderly.transport id pending) outside
    · exact absurd unsupported
        (capability_shared valid (orderly.supported id _ expected))
    · exact ⟨packet, rfl⟩

namespace Duplex

/-- The two sessions when a request has arrived. -/
def requested : Conversation primitives :=
  conversation (handshake ++ [.call .initiator (.send statusRequest), .deliver .responder])

private theorem requested_reached (role : Role) : Reached primitives (requested.final.session role) := by
  refine requested.talk.reached (fun side => ?_) (fun x mem => .of_events ?_) role
  · cases side with
    | initiator => exact .opened fresh_initiator
    | responder => exact .opened fresh_responder
  · revert x
    decide +kernel

/-- Both calls are accepted there, so the announced sizes are those of packets. -/
theorem announcedSizes_requested :
    (∀ role, AnnouncedSizes primitives (requested.final.session role)) ∧
    requested.final.initiator.requestSize primitives statusRequest = .ok 34 ∧
    requested.final.responder.responseSize primitives 1 ⟨1, .error 5⟩ = .ok 32 :=
  ⟨fun role => failed_sends_leave_session_intact (minimalPrimitives_ciborium _)
    (requested_reached role), by decide +kernel⟩

end Duplex
end OpenLock
