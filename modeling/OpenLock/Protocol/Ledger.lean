import OpenLock.Protocol.Session

/-! The ids two sessions keep while every packet arrives once and in order: what each side has
pending, and what is under way between them. -/
namespace OpenLock

/-- An id with the capability of its request. -/
abbrev Ticket := UInt32 × UInt64

/-- The two pending maps agree. Requests under way are newer than the last one received;
responses under way are for requests that only the initiator still has pending. -/
structure Ledger (capabilities : UInt64) (next last : UInt32)
    (initiator responder : PendingRequests) (requests responses : List Ticket) : Prop where
  last_lt : last < next
  known : ∀ {id cap}, initiator[id]? = some cap → id < next
  room : initiator.size ≤ maxPendingRequests
  increasing : requests.Pairwise fun q q' => q.1 < q'.1
  requested : ∀ q ∈ requests, last < q.1 ∧ initiator[q.1]? = some q.2 ∧ q.2 &&& capabilities = q.2
  pending : ∀ {id cap}, responder[id]? = some cap →
    id ≤ last ∧ initiator[id]? = some cap ∧ cap &&& capabilities = cap
  distinct : (responses.map Prod.fst).Nodup
  answered : ∀ q ∈ responses, q.1 ≤ last ∧ initiator[q.1]? = some q.2 ∧ responder[q.1]? = none ∧
    q.2 &&& capabilities = q.2

namespace Ledger
variable {capabilities : UInt64} {next next' last : UInt32} {initiator responder : PendingRequests}
  {requests responses : List Ticket} {id : UInt32} {cap : UInt64}

theorem fresh : Ledger capabilities 1 0 ∅ ∅ [] [] where
  last_lt := by decide
  known found := by simp at found
  room := by simp
  increasing := .nil
  requested _ mem := by cases mem
  pending found := by simp at found
  distinct := .nil
  answered _ mem := by cases mem

/-- An id is given up. -/
theorem skip (h : Ledger capabilities next last initiator responder requests responses)
    (le : next ≤ next') : Ledger capabilities next' last initiator responder requests responses :=
  { h with
    last_lt := UInt32.lt_of_lt_of_le h.last_lt le
    known := fun found => UInt32.lt_of_lt_of_le (h.known found) le }

theorem unused (h : Ledger capabilities next last initiator responder requests responses) :
    initiator[next]? = none := by
  cases found : initiator[next]? with
  | none => rfl
  | some cap => exact absurd (h.known found) (UInt32.lt_irrefl next)

/-- A new entry changes no other. -/
private theorem kept {map : PendingRequests} (unused : map[next]? = none) {cap' : UInt64}
    (found : map[id]? = some cap') : (map.insert next cap)[id]? = some cap' := by
  rw [Std.ExtTreeMap.getElem?_insert, if_neg]
  · exact found
  · intro same
    rw [← Std.LawfulEqCmp.eq_of_compare same, unused] at found
    cases found

theorem send (h : Ledger capabilities next last initiator responder requests responses)
    (lt : next < next') (room : initiator.size < maxPendingRequests)
    (offered : cap &&& capabilities = cap) :
    Ledger capabilities next' last (initiator.insert next cap) responder
      (requests ++ [(next, cap)]) responses := by
  have new : (initiator.insert next cap)[next]? = some cap := by simp
  refine { last_lt := UInt32.lt_trans h.last_lt lt, known := ?_, room := ?_, increasing := ?_,
           requested := ?_, pending := ?_, distinct := h.distinct, answered := ?_ }
  · intro id cap' found
    rw [Std.ExtTreeMap.getElem?_insert] at found
    split_ifs at found with same
    · rwa [← Std.LawfulEqCmp.eq_of_compare same]
    · exact UInt32.lt_trans (h.known found) lt
  · exact Std.ExtTreeMap.size_insert_le.trans room
  · refine List.pairwise_append.2 ⟨h.increasing, List.pairwise_singleton _ _, fun q mem q' last => ?_⟩
    cases List.mem_singleton.1 last
    exact h.known (h.requested q mem).2.1
  · intro q mem
    rcases List.mem_append.1 mem with earlier | last
    · obtain ⟨newer, found, offered⟩ := h.requested q earlier
      exact ⟨newer, kept h.unused found, offered⟩
    · cases List.mem_singleton.1 last
      exact ⟨h.last_lt, new, offered⟩
  · intro id cap' found
    obtain ⟨old, found, offered⟩ := h.pending found
    exact ⟨old, kept h.unused found, offered⟩
  · intro q mem
    obtain ⟨old, found, gone, offered⟩ := h.answered q mem
    exact ⟨old, kept h.unused found, gone, offered⟩

/-- A map that has every key of another and one more is larger. -/
private theorem size_lt {small large : PendingRequests}
    (sub : ∀ id' : UInt32, id' ∈ small → id' ∈ large) (absent : id ∉ small) (present : id ∈ large) :
    small.size < large.size := by
  have distinct : (id :: small.keys).Nodup :=
    List.nodup_cons.2 ⟨fun mem => absent (Std.ExtTreeMap.mem_keys.1 mem), Std.ExtTreeMap.nodup_keys⟩
  have subset : id :: small.keys ⊆ large.keys := by
    refine List.cons_subset.2 ⟨Std.ExtTreeMap.mem_keys.2 present, fun id' mem => ?_⟩
    exact Std.ExtTreeMap.mem_keys.2 (sub id' (Std.ExtTreeMap.mem_keys.1 mem))
  have shorter := (distinct.subperm subset).length_le
  rwa [List.length_cons, Std.ExtTreeMap.length_keys, Std.ExtTreeMap.length_keys] at shorter

theorem pending_subset (h : Ledger capabilities next last initiator responder requests responses)
    (mem : id ∈ responder) : id ∈ initiator := by
  obtain ⟨cap, found⟩ := Option.isSome_iff_exists.1 (Std.ExtTreeMap.mem_iff_isSome_getElem?.1 mem)
  rw [Std.ExtTreeMap.mem_iff_isSome_getElem?, (h.pending found).2.1, Option.isSome_some]

/-- The request that arrives next is new at the responder, and there is room for it. -/
theorem receivable
    (h : Ledger capabilities next last initiator responder ((id, cap) :: requests) responses) :
    last < id ∧ cap &&& capabilities = cap ∧ responder.size < maxPendingRequests := by
  obtain ⟨newer, found, offered⟩ := h.requested _ List.mem_cons_self
  refine ⟨newer, offered, Nat.lt_of_lt_of_le ?_ h.room⟩
  have absent : id ∉ responder := by
    intro mem
    obtain ⟨cap', old⟩ := Option.isSome_iff_exists.1 (Std.ExtTreeMap.mem_iff_isSome_getElem?.1 mem)
    exact UInt32.lt_irrefl _ (UInt32.lt_of_lt_of_le newer (h.pending old).1)
  have present : id ∈ initiator := by
    rw [Std.ExtTreeMap.mem_iff_isSome_getElem?, found, Option.isSome_some]
  exact size_lt (fun _ => h.pending_subset) absent present

theorem request
    (h : Ledger capabilities next last initiator responder ((id, cap) :: requests) responses) :
    Ledger capabilities next id initiator (responder.insert id cap) requests responses := by
  obtain ⟨newer, found, offered⟩ := h.requested _ List.mem_cons_self
  obtain ⟨first, increasing⟩ := List.pairwise_cons.1 h.increasing
  have le : last ≤ id := UInt32.le_of_lt newer
  refine { last_lt := h.known found, known := h.known, room := h.room, increasing := increasing,
           requested := ?_, pending := ?_, distinct := h.distinct, answered := ?_ }
  · intro q mem
    exact ⟨first q mem, (h.requested q (List.mem_cons_of_mem _ mem)).2⟩
  · intro id' cap' entry
    rw [Std.ExtTreeMap.getElem?_insert] at entry
    split_ifs at entry with same
    · cases entry
      rw [← Std.LawfulEqCmp.eq_of_compare same]
      exact ⟨UInt32.le_refl id, found, offered⟩
    · obtain ⟨old, found, offered⟩ := h.pending entry
      exact ⟨UInt32.le_trans old le, found, offered⟩
  · intro q mem
    obtain ⟨old, found, gone, offered⟩ := h.answered q mem
    refine ⟨UInt32.le_trans old le, found, ?_, offered⟩
    rw [Std.ExtTreeMap.getElem?_insert, if_neg]
    · exact gone
    · intro same
      rw [← Std.LawfulEqCmp.eq_of_compare same] at old
      exact UInt32.lt_irrefl _ (UInt32.lt_of_lt_of_le newer old)

theorem respond (h : Ledger capabilities next last initiator responder requests responses)
    (expected : responder[id]? = some cap) :
    Ledger capabilities next last initiator (responder.erase id) requests
      (responses ++ [(id, cap)]) := by
  obtain ⟨old, found, offered⟩ := h.pending expected
  refine { h with pending := ?_, distinct := ?_, answered := ?_ }
  · intro id' cap' entry
    rw [Std.ExtTreeMap.getElem?_erase] at entry
    split_ifs at entry
    exact h.pending entry
  · rw [List.map_append]
    refine List.Nodup.append h.distinct (List.nodup_singleton _) ?_
    rw [List.disjoint_comm, List.map_singleton, List.singleton_disjoint]
    intro mem
    obtain ⟨q, earlier, rfl⟩ := List.mem_map.1 mem
    have gone := (h.answered q earlier).2.2.1
    rw [expected] at gone
    cases gone
  · intro q mem
    rcases List.mem_append.1 mem with earlier | last
    · obtain ⟨old, found, gone, offered⟩ := h.answered q earlier
      refine ⟨old, found, ?_, offered⟩
      rw [Std.ExtTreeMap.getElem?_erase, gone, ite_self]
    · cases List.mem_singleton.1 last
      exact ⟨old, found, by simp, offered⟩

/-- The response that arrives next is for a request that is pending. -/
theorem answerable
    (h : Ledger capabilities next last initiator responder requests ((id, cap) :: responses)) :
    initiator[id]? = some cap ∧ cap &&& capabilities = cap := by
  obtain ⟨_, found, _, offered⟩ := h.answered _ List.mem_cons_self
  exact ⟨found, offered⟩

theorem response
    (h : Ledger capabilities next last initiator responder requests ((id, cap) :: responses)) :
    Ledger capabilities next last (initiator.erase id) responder requests responses := by
  obtain ⟨old, found, gone, offered⟩ := h.answered _ List.mem_cons_self
  obtain ⟨fresh, distinct⟩ := List.nodup_cons.1 h.distinct
  have kept {id' : UInt32} {cap' : UInt64} (other : id' ≠ id) (entry : initiator[id']? = some cap') :
      (initiator.erase id)[id']? = some cap' := by
    rw [Std.ExtTreeMap.getElem?_erase, if_neg]
    · exact entry
    · exact fun same => other (Std.LawfulEqCmp.eq_of_compare same).symm
  refine { last_lt := h.last_lt, known := ?_, room := ?_, increasing := h.increasing,
           requested := ?_, pending := ?_, distinct := distinct, answered := ?_ }
  · intro id' cap' entry
    rw [Std.ExtTreeMap.getElem?_erase] at entry
    split_ifs at entry
    exact h.known entry
  · exact Std.ExtTreeMap.size_erase_le.trans h.room
  · intro q mem
    obtain ⟨newer, found, offered⟩ := h.requested q mem
    refine ⟨newer, kept ?_ found, offered⟩
    rintro rfl
    exact UInt32.lt_irrefl _ (UInt32.lt_of_lt_of_le newer old)
  · intro id' cap' entry
    obtain ⟨old, found, offered⟩ := h.pending entry
    refine ⟨old, kept ?_ found, offered⟩
    rintro rfl
    rw [entry] at gone
    cases gone
  · intro q mem
    obtain ⟨old, found, gone, offered⟩ := h.answered q (List.mem_cons_of_mem _ mem)
    refine ⟨old, kept ?_ found, gone, offered⟩
    intro same
    exact fresh (List.mem_map.2 ⟨q, mem, same⟩)

end Ledger
end OpenLock
